import FilmCatalog.Proofs.Cache.Ledger

/-!
# What a purge forgets

A purge deletes every result of its post that was kept under the stripe of the
post before the purge got it. A result that is kept later stays, also if its
task came first and had to wait for another stripe.

Key definitions: `Errand.Pursues`, `Ledger.Accounted`, `Ledger.Forgets`.
Key theorems: `Ledger.Accounted.step`, `Ledger.Reachable.grants_of_kept`, `forgets_iff`.
-/

namespace FilmCatalog

namespace Errand

/-- The stripes that a worker has taken, also those that it gave back. -/
def stripes : Errand → List ℕ
  | locking t n => (stripesOf t.ids).take n
  | e => stripesOf e.task.ids

/-- Whether a purge of a post will delete the result under a fingerprint. -/
def Pursues (id : Int) (fingerprint : String) : Errand → Prop
  | locking t _ => t = .forget id
  | clearing other listed => other = id ∧ fingerprint ∈ listed
  | _ => False

variable {c : CacheConfig} {e e' : Errand} {taken : List ℕ} {store after : Shelf}
  {id : Int} {fingerprint : String}

theorem wants_locking {t : IndexTask} {n i : ℕ} (h : (stripesOf t.ids)[n]? = some i) :
    ((locking t n).worker c).wants? = some i := by
  rw [worker_locking_of_next h]
  rfl

/-- A worker whose job is done and that has no stripes has come to the end. -/
theorem eq_ending_of_done (hd : (e.worker c).rest = .done) (hh : e.held = []) :
    e = ending e.task [] := by
  cases e with
  | locking t n =>
    rcases hnext : (stripesOf t.ids)[n]? with _ | i
    · rw [worker_locking (List.getElem?_eq_none_iff.1 hnext)] at hd
      cases t <;> cases hd
    · rw [worker_locking_of_next hnext] at hd
      cases hd
  | listing f posts todo =>
    have hmem : stripe f.id ∈ stripesOf (contributors f posts) :=
      stripe_mem_stripesOf (mem_contributors.2 (.inl rfl))
    rw [show stripesOf (contributors f posts) = [] from hh] at hmem
    cases hmem
  | writing f posts next entry todo => cases hd
  | clearing other listed => cases listed <;> cases hd
  | ending t held =>
    obtain rfl : held = [] := hh
    rfl

namespace Step

/-- A step takes one stripe and does nothing else, or takes none. -/
theorem locks_or_stays (h : e.Step taken store e' after) :
    (∃ t n i, e = locking t n ∧ e' = locking t (n + 1) ∧ (stripesOf t.ids)[n]? = some i ∧
      i ∉ taken ∧ after = store) ∨
    ((e.worker c).wants? = none ∧ e'.stripes = e.stripes ∧ e'.held ⊆ e.held) := by
  cases h with
  | lock hi hfree => exact .inl ⟨_, _, _, rfl, rfl, hi, hfree, rfl⟩
  | keep hn =>
    rw [worker_locking hn]
    refine .inr ⟨rfl, ?_, ?_⟩ <;>
      simp [stripes, held, task, IndexTask.ids, List.take_of_length_le hn]
  | look hn _ =>
    rw [worker_locking hn]
    refine .inr ⟨rfl, ?_, ?_⟩ <;>
      simp [stripes, held, task, IndexTask.ids, List.take_of_length_le hn]
  | miss hn _ =>
    rw [worker_locking hn]
    refine .inr ⟨rfl, ?_, ?_⟩ <;>
      simp [stripes, held, task, IndexTask.ids, List.take_of_length_le hn]
  | listed hh =>
    refine .inr ⟨rfl, rfl, ?_⟩
    rw [held, held, hh]
    exact List.subset_cons_self _ _
  | unlock => exact .inr ⟨rfl, rfl, List.subset_cons_self _ _⟩
  | _ => exact .inr ⟨rfl, rfl, List.Subset.refl _⟩

/-- What is found after a value was set. -/
theorem found_of_set {key other : String} {value found : Kept}
    (h : Function.update store key (some value) other = some found) :
    (other = key ∧ found = value) ∨ (other ≠ key ∧ store other = some found) := by
  by_cases hk : other = key
  · rw [hk, Function.update_self] at h
    exact .inl ⟨hk, (Option.some.inj h).symm⟩
  · rw [Function.update_of_ne hk] at h
    exact .inr ⟨hk, h⟩

/-- What is found after a value was deleted. -/
theorem found_of_delete {key other : String} {found : Kept}
    (h : Function.update store key none other = some found) : store other = some found := by
  by_cases hk : other = key
  · rw [hk, Function.update_self] at h
    cases h
  · rwa [Function.update_of_ne hk] at h

/-- An entry was there before, or is one that the worker writes under all its stripes. -/
theorem entry (h : e.Step taken store e' after) {key : String} {found : Kept}
    (hf : after key = some found) :
    ((e.worker c).writes? = some key ∧ found.writer = e.task ∧
      e.stripes = stripesOf e.task.ids ∧ e.held = stripesOf e.task.ids) ∨
    ((e.worker c).writes? ≠ some key ∧ store key = some found) := by
  cases h with
  | lock hi _ =>
    rw [worker_locking_of_next hi]
    exact .inr ⟨nofun, hf⟩
  | @keep f posts n hn =>
    rw [worker_locking hn]
    have hall : (stripesOf (IndexTask.keep f posts).ids).take n =
      stripesOf (IndexTask.keep f posts).ids := List.take_of_length_le hn
    rcases found_of_set hf with ⟨rfl, rfl⟩ | ⟨hk, hold⟩
    · exact .inl ⟨rfl, rfl, hall, hall⟩
    · exact .inr ⟨fun hw => hk (Option.some.inj hw).symm, hold⟩
  | look hn _ =>
    rw [worker_locking hn]
    exact .inr ⟨nofun, hf⟩
  | miss hn _ =>
    rw [worker_locking hn]
    exact .inr ⟨nofun, hf⟩
  | @write f posts other entry todo =>
    rcases found_of_set hf with ⟨rfl, rfl⟩ | ⟨hk, hold⟩
    · exact .inl ⟨rfl, rfl, rfl, rfl⟩
    · exact .inr ⟨fun hw => hk (Option.some.inj hw).symm, hold⟩
  | clear => exact .inr ⟨nofun, found_of_delete hf⟩
  | delete => exact .inr ⟨nofun, found_of_delete hf⟩
  | @skip f posts id todo _ => exact .inr ⟨nofun, hf⟩
  | add _ => exact .inr ⟨nofun, hf⟩
  | listed _ => exact .inr ⟨nofun, hf⟩
  | unlock => exact .inr ⟨nofun, hf⟩

/-- A purge deletes what it pursues. -/
theorem pursues (h : e.Step taken store e' after) (hp : e.Pursues id fingerprint)
    (hr : after.ResultOf id fingerprint) (hs : e'.Sound after)
    (hown : stripe id ∈ e.held → store.ResultOf id fingerprint →
      fingerprint ∈ store.listed id ∨ e.Owes id fingerprint) :
    e'.Pursues id fingerprint := by
  cases h with
  | lock _ _ => exact hp
  | keep _ => cases hp
  | look hn _ =>
    cases hp
    exact ⟨rfl, hs fingerprint hr⟩
  | @miss id n hn hf =>
    cases hp
    have hid : stripe id ∈ (locking (.forget id) n).held := by
      rw [held, IndexTask.ids, List.take_of_length_le hn]
      exact stripe_mem_stripesOf List.mem_cons_self
    have hempty : store.listed id = [] := by
      rw [Shelf.listed, Shelf.entry, hf]
      rfl
    rcases hown hid hr with hl | ho
    · rw [hempty] at hl
      cases hl
    · exact ho.elim
  | clear =>
    obtain ⟨rfl, hmem⟩ := hp
    exact ⟨rfl, (List.mem_cons.1 hmem).resolve_left hr.of_delete.1⟩
  | delete => exact absurd hp.2 List.not_mem_nil
  | _ => exact hp.elim

end Step
end Errand

/-! ## The ledger of a workshop -/

/-- What the ledger says, the workers having errands. -/
structure Ledger.Accounted (c : CacheConfig) (errands : List (ℕ × Errand)) (s : Ledger) :
    Prop where
  busy : s.busy = errands.map fun x => (x.1, x.2.worker c)
  covered : Covered c (errands.map Prod.snd) s.shop
  apart : (errands.map Prod.fst).Nodup
  /-- A task that a worker has was submitted and has begun. -/
  begun : ∀ x ∈ errands, x.1 < s.begun ∧ s.tasks[x.1]? = some x.2.task
  past : ∀ g ∈ s.grants, g.1 < s.begun
  granted : ∀ x ∈ errands, ∀ i, (x.1, i) ∈ s.grants ↔ i ∈ x.2.stripes
  /-- A task that has ended got all its stripes. -/
  ended : ∀ n t, n < s.begun → s.tasks[n]? = some t → n ∉ errands.map Prod.fst →
    ∀ i ∈ stripesOf t.ids, (n, i) ∈ s.grants
  /-- Nobody else got a stripe that is still held. -/
  last : ∀ x ∈ errands, ∀ i ∈ x.2.held, ∀ m, ¬[(x.1, i), (m, i)].Sublist s.grants
  author : ∀ key found, s.store key = some found → ∃ n, s.author key = some n ∧
    s.tasks[n]? = some found.writer ∧ ∀ i ∈ stripesOf found.writer.ids, (n, i) ∈ s.grants
  /-- A purge that got the stripe of its post after the author of a result has not yet come
  to its end, and will delete the result. -/
  pursued : ∀ fingerprint found n m id, s.store (Namespace.similar.key fingerprint) = some found →
    s.author (Namespace.similar.key fingerprint) = some n → id ∈ found.writer.ids →
    s.tasks[m]? = some (.forget id) → [(n, stripe id), (m, stripe id)].Sublist s.grants →
    ∃ x ∈ errands, x.1 = m ∧ x.2.Pursues id fingerprint

/-- How a pair comes to be in a list that gets longer. -/
theorem pair_sublist_concat {α : Type} {a b g : α} {l : List α}
    (h : [a, b].Sublist (l ++ [g])) : [a, b].Sublist l ∨ (a ∈ l ∧ b = g) := by
  rw [List.sublist_append_iff] at h
  obtain ⟨first, last, heq, hfirst, hlast⟩ := h
  rcases List.sublist_singleton.1 hlast with rfl | rfl
  · rw [List.append_nil] at heq
    exact .inl (heq ▸ hfirst)
  · obtain ⟨rfl, hb⟩ : [a] = first ∧ [b] = [g] :=
      List.append_inj' (show [a] ++ [b] = first ++ [g] from heq) rfl
    exact .inr ⟨hfirst.subset List.mem_cons_self, List.singleton_inj.1 hb⟩

/-- Of two members of a list, one comes first. -/
theorem pair_sublist_or {α : Type} {a b : α} {l : List α} (ha : a ∈ l) (hb : b ∈ l)
    (hne : a ≠ b) : [a, b].Sublist l ∨ [b, a].Sublist l := by
  induction l with
  | nil => cases ha
  | cons x l ih =>
    rcases List.mem_cons.1 ha, List.mem_cons.1 hb with ⟨rfl | hal, rfl | hbl⟩
    · exact absurd rfl hne
    · exact .inl ((List.singleton_sublist.2 hbl).cons_cons _)
    · exact .inr ((List.singleton_sublist.2 hal).cons_cons _)
    · exact (ih hal hbl).imp (·.cons x) (·.cons x)

namespace Ledger.Accounted

variable {c : CacheConfig} {workers : ℕ} {errands before behind : List (ℕ × Errand)} {e e' : Errand}
  {n : ℕ} {s s' : Ledger} {after : Shelf}

theorem start : Accounted c [] .start where
  busy := rfl
  covered := .empty
  apart := .nil
  begun := by simp
  past := by simp [Ledger.start]
  granted := by simp
  ended := by simp [Ledger.start]
  last := by simp
  author := by simp [Ledger.start]
  pursued := by simp [Ledger.start]

/-- A task that begins has the first number that has not begun. -/
theorem submits (h : Accounted c errands s) (hb : s.begun ≤ s.tasks.length) (t : IndexTask) :
    Accounted c errands { s with tasks := s.tasks ++ [t] } := by
  have hold : ∀ {m t'}, m < s.begun → ((s.tasks ++ [t])[m]? = some t' ↔ s.tasks[m]? = some t') :=
    fun hm => by rw [List.getElem?_append_left (hm.trans_le hb)]
  refine ⟨h.busy, ?_, h.apart, ?_, h.past, h.granted, ?_, h.last, ?_, ?_⟩
  · exact h.covered.waiting _
  · exact fun x hx => ⟨(h.begun x hx).1, (hold (h.begun x hx).1).2 (h.begun x hx).2⟩
  · exact fun m t' hm ht => h.ended m t' hm ((hold hm).1 ht)
  · intro key found hf
    obtain ⟨m, ha, ht, hg⟩ := h.author key found hf
    exact ⟨m, ha, List.getElem?_append_left (List.getElem?_eq_some_iff.1 ht).1 ▸ ht, hg⟩
  · intro fp found m m' id hf ha hid ht hsub
    have hm : (m', stripe id) ∈ s.grants :=
      hsub.subset (List.mem_cons_of_mem _ List.mem_cons_self)
    exact h.pursued fp found m m' id hf ha hid ((hold (h.past _ hm)).1 ht) hsub

theorem begins (h : Accounted c errands s) {t : IndexTask} (ht : s.tasks[s.begun]? = some t) :
    Accounted c (errands ++ [(s.begun, .locking t 0)])
      { s with begun := s.begun + 1, busy := s.busy ++ [(s.begun, ⟨t, t.job c, []⟩)] } := by
  have hnew : ∀ x ∈ errands, x.1 ≠ s.begun := fun x hx => (h.begun x hx).1.ne
  have hcases : ∀ {p : ℕ × Errand → Prop}, (∀ x ∈ errands, p x) → p (s.begun, .locking t 0) →
      ∀ x ∈ errands ++ [(s.begun, .locking t 0)], p x := by
    intro p hold hp x hx
    rcases List.mem_append.1 hx with hx | hx
    · exact hold x hx
    · rwa [List.mem_singleton.1 hx]
  refine ⟨?_, ?_, ?_, ?_, ?_, ?_, ?_, ?_, h.author, ?_⟩
  · simp [h.busy, Errand.worker, IndexTask.job_eq]
  · simpa [shop] using (h.covered.waiting (s.tasks.drop (s.begun + 1))).begins t
  · rw [List.map_append, List.nodup_append]
    refine ⟨h.apart, List.nodup_singleton _, fun a ha b hb => ?_⟩
    obtain ⟨x, hx, rfl⟩ := List.mem_map.1 ha
    rw [show b = s.begun by simpa using hb]
    exact hnew x hx
  · exact hcases (fun x hx => ⟨(h.begun x hx).1.trans (Nat.lt_succ_self _), (h.begun x hx).2⟩)
      ⟨Nat.lt_succ_self _, ht⟩
  · exact fun g hg => (h.past g hg).trans (Nat.lt_succ_self _)
  · refine hcases h.granted fun i => ⟨fun hg => absurd (h.past _ hg) (lt_irrefl _), fun hi => ?_⟩
    cases hi
  · intro m t' hm ht' hmem
    rw [List.map_append, List.mem_append, not_or] at hmem
    have hne : m ≠ s.begun := by simpa using hmem.2
    exact h.ended m t' (lt_of_le_of_ne (Nat.le_of_lt_succ hm) hne) ht' hmem.1
  · exact hcases h.last (by simp [Errand.held])
  · intro fp found m m' id hf ha hid ht' hsub
    obtain ⟨x, hx, hm, hp⟩ := h.pursued fp found m m' id hf ha hid ht' hsub
    exact ⟨x, List.mem_append_left _ hx, hm, hp⟩

theorem finishes (h : Accounted c (before ++ (n, e) :: behind) s)
    (he : e = Errand.ending e.task []) :
    Accounted c (before ++ behind)
      { s with busy := (before ++ behind).map fun x => (x.1, x.2.worker c) } := by
  have hmem : (n, e) ∈ before ++ (n, e) :: behind := by simp
  have hrest : ∀ x ∈ before ++ behind, x ∈ before ++ (n, e) :: behind := fun x hx =>
    mem_middle.2 (.inr hx)
  refine ⟨rfl, ?_, ?_, fun x hx => h.begun x (hrest x hx), h.past,
    fun x hx => h.granted x (hrest x hx), ?_, fun x hx => h.last x (hrest x hx), h.author, ?_⟩
  · have hc := h.covered
    rw [List.map_append, List.map_cons] at hc
    have hheld : e.held = [] := by rw [he]; rfl
    simpa [shop, List.map_append, Function.comp_def] using hc.finishes hheld
  · have hsub : (before ++ behind).Sublist (before ++ (n, e) :: behind) :=
      (List.Sublist.refl before).append (List.sublist_cons_self (n, e) behind)
    exact h.apart.sublist (hsub.map Prod.fst)
  · intro m t hm ht hnot
    by_cases hmn : m = n
    · subst hmn
      have htask : e.task = t := Option.some.inj ((h.begun _ hmem).2.symm.trans ht)
      have hall : e.stripes = stripesOf t.ids := by rw [he, ← htask]; rfl
      exact fun i hi => (h.granted _ hmem i).2 (hall ▸ hi)
    · refine h.ended m t hm ht fun hin => hnot ?_
      obtain ⟨x, hx, rfl⟩ := List.mem_map.1 hin
      rcases mem_middle.1 hx with rfl | hx
      · exact absurd rfl hmn
      · exact List.mem_map_of_mem hx
  · intro fp found m m' id hf ha hid ht hsub
    obtain ⟨x, hx, hm, hp⟩ := h.pursued fp found m m' id hf ha hid ht hsub
    rcases mem_middle.1 hx with rfl | hx
    · rw [show e = _ from he] at hp
      exact hp.elim
    · exact ⟨x, hx, hm, hp⟩

/-- Who is at work, before and after a step of one worker. -/
theorem mem_worked {x : ℕ × Errand} (hx : x ∈ before ++ (n, e') :: behind) :
    x = (n, e') ∨ x ∈ before ++ (n, e) :: behind ∧ x ∈ before ++ behind := by
  rcases mem_middle.1 hx with rfl | hx
  · exact .inl rfl
  · exact .inr ⟨mem_middle.2 (.inr hx), hx⟩

/-- The others have other numbers. -/
theorem ne_of_mem (h : Accounted c (before ++ (n, e) :: behind) s) {x : ℕ × Errand}
    (hx : x ∈ before ++ behind) : x.1 ≠ n := by
  have hnodup := h.apart
  rw [(List.perm_middle.map Prod.fst).nodup_iff, List.map_cons, List.nodup_cons] at hnodup
  intro hn
  have hin : x.1 ∈ (before ++ behind).map Prod.fst := List.mem_map_of_mem hx
  rw [hn] at hin
  exact hnodup.1 hin

/-- A stripe that is held is taken. -/
theorem mem_taken (h : Accounted c errands s) {x : ℕ × Errand} (hx : x ∈ errands) {i : ℕ}
    (hi : i ∈ x.2.held) : i ∈ s.shop.taken :=
  h.covered.mem_taken (List.mem_map_of_mem hx) hi

/-- An entry is as it was, or its author is the worker. -/
theorem entry_worked (hs : e.Step s.shop.taken s.store e' after) (b b' : List (ℕ × Worker))
    (w' : Worker) {key : String} {found : Kept} (hf : after key = some found) :
    ((s.worked b b' n (e.worker c) w' after).author key = some n ∧ found.writer = e.task ∧
      e.stripes = stripesOf e.task.ids ∧ e.held = stripesOf e.task.ids) ∨
    ((s.worked b b' n (e.worker c) w' after).author key = s.author key ∧
      s.store key = some found) := by
  rcases hs.entry (c := c) hf with ⟨hw, hwriter, hstripes, hheld⟩ | ⟨hw, hold⟩
  · refine .inl ⟨?_, hwriter, hstripes, hheld⟩
    rw [worked, hw]
    exact Function.update_self _ _ _
  · refine .inr ⟨?_, hold⟩
    rw [worked]
    cases hkey : (e.worker c).writes? with
    | none => rfl
    | some other =>
      rw [hkey] at hw
      exact Function.update_of_ne (fun hk => hw (congrArg some hk.symm)) _ _

section
variable (h : Accounted c (before ++ (n, e) :: behind) s)
  (hs : e.Step s.shop.taken s.store e' after) (b b' : List (ℕ × Worker)) (w' : Worker)
include h hs

/-- A step puts down one grant, of the next stripe, or none. -/
theorem grants_worked :
    (∃ t j i, e = .locking t j ∧ e' = .locking t (j + 1) ∧ (stripesOf t.ids)[j]? = some i ∧
      i ∉ s.shop.taken ∧ (n, i) ∉ s.grants ∧
      (s.worked b b' n (e.worker c) w' after).grants = s.grants ++ [(n, i)]) ∨
    (e'.stripes = e.stripes ∧ e'.held ⊆ e.held ∧
      (s.worked b b' n (e.worker c) w' after).grants = s.grants) := by
  rcases hs.locks_or_stays (c := c) with ⟨t, j, i, rfl, rfl, hi, hfree, -⟩ | ⟨hw, hstripes, hheld⟩
  · refine .inl ⟨t, j, i, rfl, rfl, hi, hfree, fun hg => ?_, ?_⟩
    · -- the stripe that comes next is not among those before
      have hold : i ∈ (stripesOf t.ids).take j := (h.granted (n, .locking t j) (by simp) i).1 hg
      have hnodup := (nodup_stripesOf t.ids).sublist (List.take_sublist (j + 1) _)
      rw [List.take_add_one, hi, Option.toList_some, List.nodup_append] at hnodup
      exact hnodup.2.2 i hold i List.mem_cons_self rfl
    · rw [worked, Errand.wants_locking hi]
      rfl
  · refine .inr ⟨hstripes, hheld, ?_⟩
    rw [worked, hw]
    exact List.append_nil _

theorem granted_worked (x : ℕ × Errand) (hx : x ∈ before ++ (n, e') :: behind) (i : ℕ) :
    (x.1, i) ∈ (s.worked b b' n (e.worker c) w' after).grants ↔ i ∈ x.2.stripes := by
  have hmem : (n, e) ∈ before ++ (n, e) :: behind := by simp
  rcases h.grants_worked hs b b' w' with ⟨t, j, i', rfl, rfl, hi, -, -, hg⟩ | ⟨hstripes, -, hg⟩
  · rw [hg, List.mem_append, List.mem_singleton]
    rcases mem_worked hx with rfl | ⟨hold, hx⟩
    · have hgranted := h.granted _ hmem i
      rw [Errand.stripes] at hgranted ⊢
      rw [hgranted, List.take_add_one, hi, Option.toList_some, List.mem_append,
        List.mem_singleton, Prod.mk.injEq, and_iff_right rfl]
    · rw [h.granted x hold i, Prod.mk.injEq, or_iff_left fun hn => h.ne_of_mem hx hn.1]
  · rw [hg]
    rcases mem_worked hx with rfl | ⟨hold, -⟩
    · rw [hstripes]
      exact h.granted _ hmem i
    · exact h.granted x hold i

theorem last_worked (x : ℕ × Errand) (hx : x ∈ before ++ (n, e') :: behind) (i : ℕ)
    (hi : i ∈ x.2.held) (m : ℕ) :
    ¬[(x.1, i), (m, i)].Sublist (s.worked b b' n (e.worker c) w' after).grants := by
  have hmem : (n, e) ∈ before ++ (n, e) :: behind := by simp
  rcases h.grants_worked hs b b' w' with ⟨t, j, i', rfl, rfl, hi', hfree, hnew, hg⟩ |
      ⟨-, hheld, hg⟩
  · rw [hg]
    intro hsub
    rcases mem_worked hx with rfl | ⟨hold, -⟩
    · rw [Errand.held, List.take_add_one, hi', Option.toList_some, List.mem_append,
        List.mem_singleton] at hi
      rcases hi with hi | rfl
      · rcases pair_sublist_concat hsub with hsub | ⟨-, heq⟩
        · exact h.last _ hmem i hi m hsub
        · obtain ⟨-, rfl⟩ := Prod.mk.inj heq
          exact hfree (h.mem_taken hmem hi)
      · rcases pair_sublist_concat hsub with hsub | ⟨hin, -⟩
        · exact hnew (hsub.subset List.mem_cons_self)
        · exact hnew hin
    · rcases pair_sublist_concat hsub with hsub | ⟨-, heq⟩
      · exact h.last x hold i hi m hsub
      · obtain ⟨-, rfl⟩ := Prod.mk.inj heq
        exact hfree (h.mem_taken hold hi)
  · rw [hg]
    rcases mem_worked hx with rfl | ⟨hold, -⟩
    · exact h.last _ hmem i (hheld hi) m
    · exact h.last x hold i hi m

theorem author_worked (key : String) (found : Kept) (hf : after key = some found) :
    ∃ k, (s.worked b b' n (e.worker c) w' after).author key = some k ∧
      s.tasks[k]? = some found.writer ∧ ∀ i ∈ stripesOf found.writer.ids,
        (k, i) ∈ (s.worked b b' n (e.worker c) w' after).grants := by
  have hmem : (n, e) ∈ before ++ (n, e) :: behind := by simp
  have hgrants : ∀ g ∈ s.grants, g ∈ (s.worked b b' n (e.worker c) w' after).grants :=
    fun g hg => List.mem_append_left _ hg
  rcases entry_worked hs b b' w' hf with ⟨ha, hwriter, hstripes, -⟩ | ⟨ha, hold⟩
  · rw [hwriter]
    refine ⟨n, ha, (h.begun _ hmem).2, fun i hi => hgrants _ ?_⟩
    exact (h.granted _ hmem i).2 (hstripes ▸ hi)
  · obtain ⟨k, hk, htask, hall⟩ := h.author key found hold
    exact ⟨k, ha.trans hk, htask, fun i hi => hgrants _ (hall i hi)⟩

/-- Who pursued a result before still does. -/
theorem still_pursued (hc : Covered c ((before ++ (n, e') :: behind).map Prod.snd)
      { s.shop with
        busy := ((before ++ (n, e') :: behind).map Prod.snd).map (·.worker c), store := after })
    {fingerprint : String} {found : Kept} {k m : ℕ} {id : Int}
    (hf : after (Namespace.similar.key fingerprint) = some found)
    (hold : s.store (Namespace.similar.key fingerprint) = some found)
    (hk : s.author (Namespace.similar.key fingerprint) = some k)
    (hid : id ∈ found.writer.ids) (ht : s.tasks[m]? = some (.forget id))
    (hsub : [(k, stripe id), (m, stripe id)].Sublist s.grants) :
    ∃ x ∈ before ++ (n, e') :: behind, x.1 = m ∧ x.2.Pursues id fingerprint := by
  have hmem' : (n, e') ∈ before ++ (n, e') :: behind := by simp
  obtain ⟨x, hx, hm, hp⟩ := h.pursued fingerprint found k m id hold hk hid ht hsub
  rcases mem_middle.1 hx with rfl | hx
  · have hc' := h.covered
    rw [List.map_append, List.map_cons] at hc'
    exact ⟨_, hmem', hm, hs.pursues hp ⟨found, hf, hid⟩ (hc.sound _ (List.mem_map_of_mem hmem'))
      (hc'.own id fingerprint)⟩
  · exact ⟨x, mem_middle.2 (.inr hx), hm, hp⟩

theorem pursued_worked (hc : Covered c ((before ++ (n, e') :: behind).map Prod.snd)
      { s.shop with
        busy := ((before ++ (n, e') :: behind).map Prod.snd).map (·.worker c), store := after })
    (fingerprint : String) (found : Kept) (k m : ℕ) (id : Int)
    (hf : after (Namespace.similar.key fingerprint) = some found)
    (ha : (s.worked b b' n (e.worker c) w' after).author (Namespace.similar.key fingerprint) =
      some k)
    (hid : id ∈ found.writer.ids) (ht : s.tasks[m]? = some (.forget id))
    (hsub : [(k, stripe id), (m, stripe id)].Sublist
      (s.worked b b' n (e.worker c) w' after).grants) :
    ∃ x ∈ before ++ (n, e') :: behind, x.1 = m ∧ x.2.Pursues id fingerprint := by
  have hmem : (n, e) ∈ before ++ (n, e) :: behind := by simp
  rcases h.grants_worked hs b b' w' with ⟨t, j, i, rfl, rfl, hi, -, -, hg⟩ | ⟨-, -, hg⟩
  · -- a stripe is taken, perhaps by a purge that from now on pursues the result
    rw [hg] at hsub
    rcases entry_worked hs b b' w' hf with ⟨-, -, hstripes, -⟩ | ⟨hauthor, hold⟩
    · have hle : (stripesOf t.ids).length ≤ j := List.take_eq_self_iff _ |>.1 hstripes
      rw [List.getElem?_eq_none hle] at hi
      cases hi
    · rcases pair_sublist_concat hsub with hsub | ⟨-, heq⟩
      · exact h.still_pursued hs hc hf hold (hauthor ▸ ha) hid ht hsub
      · obtain ⟨rfl, -⟩ := Prod.mk.inj heq
        refine ⟨_, List.mem_append_right _ List.mem_cons_self, rfl, ?_⟩
        exact Option.some.inj ((h.begun _ hmem).2.symm.trans ht)
  · rw [hg] at hsub
    rcases entry_worked hs b b' w' hf with ⟨hauthor, hwriter, -, hheld⟩ | ⟨hauthor, hold⟩
    · -- the author of a new result still has the stripe
      obtain rfl : n = k := Option.some.inj (hauthor.symm.trans ha)
      refine absurd hsub (h.last _ hmem (stripe id) ?_ m)
      rw [show (n, e).2.held = _ from hheld, ← hwriter]
      exact stripe_mem_stripesOf hid
    · exact h.still_pursued hs hc hf hold (hauthor ▸ ha) hid ht hsub

end

theorem works (h : Accounted c (before ++ (n, e) :: behind) s)
    (hs : e.Step s.shop.taken s.store e' after) :
    Accounted c (before ++ (n, e') :: behind)
      (s.worked (before.map fun x => (x.1, x.2.worker c)) (behind.map fun x => (x.1, x.2.worker c))
        n (e.worker c) (e'.worker c) after) := by
  have hmem : (n, e) ∈ before ++ (n, e) :: behind := by simp
  have hfst : (before ++ (n, e') :: behind).map Prod.fst =
      (before ++ (n, e) :: behind).map Prod.fst := by simp
  have hcovered : Covered c ((before ++ (n, e') :: behind).map Prod.snd)
      { s.shop with
        busy := ((before ++ (n, e') :: behind).map Prod.snd).map (·.worker c)
        store := after } := by
    have hc := h.covered
    rw [List.map_append, List.map_cons] at hc ⊢
    exact hc.works hs
  refine ⟨by simp [worked], ?_, hfst ▸ h.apart, ?_, ?_, h.granted_worked hs _ _ _, ?_,
    h.last_worked hs _ _ _, h.author_worked hs _ _ _, h.pursued_worked hs _ _ _ hcovered⟩
  · simpa [shop, worked, Function.comp_def] using hcovered
  · intro x hx
    rcases mem_worked hx with rfl | ⟨hx, -⟩
    · rw [show (n, e').2.task = e.task from hs.task_eq]
      exact h.begun _ hmem
    · exact h.begun x hx
  · intro g hg
    rcases List.mem_append.1 hg with hg | hg
    · exact h.past g hg
    · obtain ⟨i, -, rfl⟩ := by simpa using hg
      exact (h.begun _ hmem).1
  · intro m t hm ht hnot i hi
    rw [hfst] at hnot
    exact List.mem_append_left _ (h.ended m t hm ht hnot i hi)

/-- Every step keeps the ledger right. -/
theorem step (h : Accounted c errands s) (hb : s.begun ≤ s.tasks.length)
    (hs : Step c workers s s') : ∃ errands', Accounted c errands' s' := by
  cases hs with
  | submit t => exact ⟨_, h.submits hb t⟩
  | begin ht _ => exact ⟨_, h.begins ht⟩
  | @work before behind n w w' after hbusy hw =>
    rw [h.busy] at hbusy
    obtain ⟨before, ⟨n, e⟩, behind, rfl, rfl, heq, rfl⟩ := exists_middle_of_map hbusy
    obtain ⟨rfl, rfl⟩ := Prod.mk.inj heq
    obtain ⟨e', rfl, hstep⟩ := Errand.step_of_worker hw
    exact ⟨_, h.works hstep⟩
  | @finish before behind n w hbusy hd hh =>
    rw [h.busy] at hbusy
    obtain ⟨before, ⟨n, e⟩, behind, rfl, rfl, heq, rfl⟩ := exists_middle_of_map hbusy
    obtain ⟨rfl, rfl⟩ := Prod.mk.inj heq
    rw [Errand.held_worker] at hh
    refine ⟨before ++ behind, ?_⟩
    rw [← List.map_append]
    exact h.finishes (Errand.eq_ending_of_done hd hh)

theorem of_reachable (h : Reachable c workers s) : ∃ errands, Accounted c errands s := by
  induction h with
  | refl => exact ⟨[], .start⟩
  | tail hr hs ih =>
    obtain ⟨errands, ih⟩ := ih
    exact ih.step (Reachable.begun_le hr) hs

end Ledger.Accounted

namespace Ledger

variable {c : CacheConfig} {workers : ℕ} {s s' : Ledger}

/-- When all tasks have ended, a kept result has an author, and each purge of
one of its posts got the stripe of the post before the author did. -/
theorem Reachable.grants_of_kept (h : Reachable c workers s) (hidle : s.Idle)
    {fingerprint : String} {found : Kept}
    (hf : s.store (Namespace.similar.key fingerprint) = some found) :
    ∃ k, s.author (Namespace.similar.key fingerprint) = some k ∧
      s.tasks[k]? = some found.writer ∧
      ∀ id ∈ found.writer.ids, ∀ m, s.tasks[m]? = some (.forget id) →
        [(m, stripe id), (k, stripe id)].Sublist s.grants := by
  obtain ⟨errands, hacc⟩ := Accounted.of_reachable h
  obtain ⟨k, hk, htask, hall⟩ := hacc.author _ _ hf
  refine ⟨k, hk, htask, fun id hid m hm => ?_⟩
  have hnil : errands = [] := by
    rw [← List.map_eq_nil_iff, ← hacc.busy]
    exact hidle.2
  subst hnil
  have hgranted : (m, stripe id) ∈ s.grants := by
    refine hacc.ended m _ ?_ hm (by simp) _ (stripe_mem_stripesOf List.mem_cons_self)
    rw [hidle.1]
    exact (List.getElem?_eq_some_iff.1 hm).1
  have hnot : ¬[(k, stripe id), (m, stripe id)].Sublist s.grants := by
    intro hsub
    obtain ⟨x, hx, -⟩ := hacc.pursued _ _ k m id hf hk hid hm hsub
    cases hx
  have hne : (m, stripe id) ≠ (k, stripe id) := by
    intro heq
    obtain ⟨f, posts, hresult⟩ := hacc.covered.results _ _ hf
    rw [(Prod.mk.inj heq).1, htask, hresult.1] at hm
    cases hm
  exact (pair_sublist_or hgranted (hall _ (stripe_mem_stripesOf hid)) hne).resolve_right hnot

/-! ## One worker -/

/-- With one worker at most, the tasks get their stripes in the order of their numbers. -/
structure InTurn (s : Ledger) : Prop where
  single : s.busy.length ≤ 1
  busy : ∀ x ∈ s.busy, x.1 + 1 = s.begun
  past : ∀ g ∈ s.grants, g.1 + 1 ≤ s.begun
  grants : s.grants.Pairwise fun a b => a.1 ≤ b.1

theorem InTurn.step (h : s.InTurn) (hw : workers ≤ 1) (hs : Step c workers s s') : s'.InTurn := by
  cases hs with
  | submit t => exact ⟨h.single, h.busy, h.past, h.grants⟩
  | @begin t ht hlt =>
    have hnil : s.busy = [] := List.length_eq_zero_iff.1 (by omega)
    refine ⟨by simp [hnil], by simp [hnil], ?_, h.grants⟩
    exact fun g hg => (h.past g hg).trans (Nat.le_succ _)
  | @work before behind n w w' after hbusy hw =>
    have hn : n + 1 = s.begun := h.busy (n, w) (by simp [hbusy])
    refine ⟨?_, ?_, ?_, ?_⟩
    · have hsingle := h.single
      rw [hbusy] at hsingle
      simpa [worked] using hsingle
    · intro x hx
      rcases mem_middle.1 hx with rfl | hx
      · exact hn
      · refine h.busy x ?_
        rw [hbusy]
        exact mem_middle.2 (.inr hx)
    · intro g hg
      rcases List.mem_append.1 hg with hg | hg
      · exact h.past g hg
      · obtain ⟨i, -, rfl⟩ := by simpa using hg
        exact hn.le
    · rw [worked, List.pairwise_append]
      refine ⟨h.grants, ?_, fun g hg g' hg' => ?_⟩
      · cases w.wants? with
        | none => exact .nil
        | some i => exact List.pairwise_singleton _ _
      · obtain ⟨i, -, rfl⟩ := by simpa using hg'
        have hpast := h.past g hg
        show g.1 ≤ n
        omega
  | @finish before behind n w hbusy _ _ =>
    have hsub : (before ++ behind).Sublist s.busy := by
      rw [hbusy]
      exact (List.Sublist.refl before).append (List.sublist_cons_self _ behind)
    exact ⟨hsub.length_le.trans h.single, fun x hx => h.busy x (hsub.subset hx), h.past, h.grants⟩

theorem Reachable.inTurn (h : Reachable c workers s) (hw : workers ≤ 1) : s.InTurn := by
  induction h with
  | refl => exact ⟨by simp [start], by simp [start], by simp [start], .nil⟩
  | tail _ hs ih => exact ih.step hw hs

/-! ## Two workers -/

/-- Where one worker comes, if no other one has stripes, while nothing else happens. -/
theorem exists_of_runs (before behind : List (ℕ × Worker)) {n : ℕ} {e e' : Errand}
    {after : Shelf} (hb : s.busy = before ++ (n, e.worker c) :: behind)
    (hfree : ∀ x ∈ before ++ behind, x.2.held = []) (h : e.Runs s.store e' after) :
    ∃ s', Relation.ReflTransGen (Step c workers) s s' ∧ s'.tasks = s.tasks ∧ s'.begun = s.begun ∧
      s'.busy = before ++ (n, e'.worker c) :: behind ∧ s'.store = after := by
  unfold Errand.Runs at h
  generalize hto : (e', after) = b at h
  induction h generalizing e' after with
  | refl =>
    cases hto
    exact ⟨s, .refl, rfl, rfl, hb, rfl⟩
  | @tail a b _ hstep ih =>
    subst hto
    obtain ⟨s', hr, htasks, hbegun, hbusy, hstore⟩ := ih rfl
    have htaken : s'.shop.taken = a.1.held := by
      have hnone : ∀ l : List (ℕ × Worker), (∀ x ∈ l, x.2.held = []) →
          (l.map Prod.snd).flatMap (·.held) = [] := by
        intro l hl
        rw [List.flatMap_eq_nil_iff]
        intro w hw
        obtain ⟨x, hx, rfl⟩ := List.mem_map.1 hw
        exact hl x hx
      have hl := hnone before fun x hx => hfree x (List.mem_append_left _ hx)
      have hr := hnone behind fun x hx => hfree x (List.mem_append_right _ hx)
      rw [Workshop.taken, shop, hbusy, List.map_append, List.map_cons, List.flatMap_append,
        List.flatMap_cons, hl, hr, List.nil_append, List.append_nil, Errand.held_worker]
    have hwork := hstep.worker (c := c)
    rw [← htaken, ← hstore] at hwork
    exact ⟨_, hr.tail (.work hbusy hwork), htasks, hbegun, rfl, rfl⟩

/-- A purge that begins while a result waits to be kept may get its stripe first.
Then it finds nothing listed, and the result stays when all has ended. -/
theorem exists_kept_of_purged (c : CacheConfig) (hw : 1 < workers) (f : SimilarityFilter)
    (posts : List Post)
    (id : Int) : ∃ s, Reachable c workers s ∧ s.Idle ∧ s.tasks = [.keep f posts, .forget id] ∧
      s.store (Namespace.similar.key (Fingerprint.of f.toJson)) =
        some ⟨(Json.ofList Post.toJson posts).encoded, .keep f posts⟩ := by
  let keeper : ℕ × Worker := (0, (Errand.locking (.keep f posts) 0).worker c)
  let purger : ℕ × Worker := (1, (Errand.locking (.forget id) 0).worker c)
  let both : Ledger := ⟨[.keep f posts, .forget id], 2, [keeper, purger], fun _ => none,
    fun _ => none, []⟩
  have hbegun : Reachable c workers both := by
    have hsubmitted : Reachable c workers
        ⟨[.keep f posts, .forget id], 0, [], fun _ => none, fun _ => none, []⟩ :=
      (Relation.ReflTransGen.refl.tail (.submit (.keep f posts))).tail (.submit (.forget id))
    have hsecond := (hsubmitted.tail (.begin rfl (Nat.zero_lt_of_lt hw))).tail (.begin rfl hw)
    rw [IndexTask.job_eq, IndexTask.job_eq] at hsecond
    exact hsecond
  have hkeeper : keeper.2.held = [] := rfl
  -- the purge gets its stripe while the other worker has none
  have hpurge : (Errand.locking (.forget id) 0).Runs both.store _ _ := Errand.runs_miss rfl
  obtain ⟨s₁, hr₁, htasks₁, hbegun₁, hbusy₁, hstore₁⟩ :=
    exists_of_runs [keeper] [] (s := both) rfl (by simpa using hkeeper) hpurge
  have hleft : Step c workers s₁ { s₁ with busy := [keeper] ++ [] } := .finish hbusy₁ rfl rfl
  obtain ⟨after, hkeep, hkept⟩ := Errand.runs_keep f posts s₁.store
  obtain ⟨s₂, hr₂, htasks₂, hbegun₂, hbusy₂, hstore₂⟩ :=
    exists_of_runs (s := { s₁ with busy := [keeper] ++ [] }) [] [] rfl (by simp) hkeep
  have hlast : Step c workers s₂ { s₂ with busy := [] ++ [] } := .finish hbusy₂ rfl rfl
  have htasks : s₂.tasks = [.keep f posts, .forget id] := htasks₂.trans htasks₁
  have hnumber : s₂.begun = 2 := hbegun₂.trans hbegun₁
  refine ⟨_, (((hbegun.trans hr₁).tail hleft).trans hr₂).tail hlast, ⟨?_, rfl⟩, htasks, ?_⟩
  · show s₂.begun = s₂.tasks.length
    rw [htasks, hnumber]
    rfl
  · show s₂.store _ = _
    rw [hstore₂, hkept]

end Ledger

/-- Whether a purge deletes all results of its post that were submitted to be
kept before it: when all tasks have ended, what is kept comes from tasks that
were submitted later. -/
def Forgets (c : CacheConfig) (workers : ℕ) : Prop :=
  ∀ s, Ledger.Reachable c workers s → s.Idle → ∀ m id, s.tasks[m]? = some (.forget id) →
    ∀ fingerprint found f posts, s.store (Namespace.similar.key fingerprint) = some found →
      found.IsResult fingerprint f posts → (∃ p ∈ posts, p.id = id) →
      ∃ k, s.author (Namespace.similar.key fingerprint) = some k ∧ m < k

/-- A purge is sure to do so only if there is one worker. The ledgers are about all
workshops that can be reached, and about no others. -/
theorem forgets_iff (c : CacheConfig) (workers : ℕ) :
    (∀ w : Workshop Shelf, w.Reachable c workers .steady False (fun _ => none) ↔
      ∃ s, Ledger.Reachable c workers s ∧ s.shop = w) ∧
    (Forgets c workers ↔ workers ≤ 1) := by
  refine ⟨fun w => ⟨Ledger.exists_of_reachable, ?_⟩, ?_, ?_⟩
  · rintro ⟨s, hs, rfl⟩
    exact hs.shop
  · intro h
    by_contra hw
    obtain ⟨s, hr, hidle, htasks, hf⟩ :=
      Ledger.exists_kept_of_purged c (lt_of_not_ge hw) (.around 1) [.neighbour] 2
    obtain ⟨k, hk, hlt⟩ := h s hr hidle 1 2 (by rw [htasks]; rfl) _ _ _ _ hf ⟨rfl, rfl⟩
      ⟨_, List.mem_cons_self, rfl⟩
    -- but the author is one of two tasks
    obtain ⟨k', hk', htask, -⟩ := hr.grants_of_kept hidle hf
    obtain rfl : k = k' := Option.some.inj (hk.symm.trans hk')
    rw [htasks] at htask
    have hbound : k < 2 := (List.getElem?_eq_some_iff.1 htask).1
    omega
  · intro hw s hr hidle m id hm fingerprint found f posts hf hresult hid
    obtain ⟨k, hk, htask, hpurges⟩ := hr.grants_of_kept hidle hf
    refine ⟨k, hk, ?_⟩
    have hsub : [(m, stripe id), (k, stripe id)].Sublist s.grants := by
      refine hpurges id ?_ m hm
      rw [hresult.1]
      exact mem_contributors.2 (.inr hid)
    have hle : m ≤ k := by
      have hpair := (hr.inTurn hw).grants.sublist hsub
      exact (List.pairwise_cons.1 hpair).1 _ List.mem_cons_self
    refine lt_of_le_of_ne hle fun he => ?_
    rw [he, htask, hresult.1] at hm
    cases hm

/-- With four workers a result that has post 2 is still kept after all has ended,
though post 2 was forgotten after the result was submitted. -/
theorem neighbour_kept_after_purge :
    ∃ s found, Ledger.Reachable {} 4 s ∧ s.Idle ∧
      s.tasks = [.keep (.around 1) [.neighbour], .forget 2] ∧
      s.store (Namespace.similar.key (Fingerprint.of (SimilarityFilter.around 1).toJson)) =
        some found ∧
      found.IsResult (Fingerprint.of (SimilarityFilter.around 1).toJson) (.around 1)
        [.neighbour] ∧
      Post.neighbour.id = 2 := by
  obtain ⟨s, hr, hidle, htasks, hf⟩ :=
    Ledger.exists_kept_of_purged {} (show 1 < 4 by decide) (.around 1) [.neighbour] 2
  exact ⟨s, _, hr, hidle, htasks, hf, ⟨rfl, rfl⟩, rfl⟩

end FilmCatalog
