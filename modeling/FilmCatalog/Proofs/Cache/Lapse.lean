import FilmCatalog.Proofs.Cache.Dated

/-!
# Listings that lapse

A result is kept and listed for its posts. Later it is purged through one of
them, or its time is over, and just before the index entry of another post ends
the same result is kept again. The entry still lists its fingerprint and is
left alone, so it ends as it would have, long before the result does. Then a
purge of that post does not find the result.

Key definitions: `Errand.Endures`.
Key theorems: `Workshop.DatedReachable.keeps`, `Workshop.DatedReachable.forgets`,
`exists_last_moment`, `exists_lapsed`, `index_outlives_iff`.
-/

namespace FilmCatalog

namespace Workshop.DatedReachable

variable {c : CacheConfig} {workers : ℕ} {may may' : SimilarityFilter → Int → Prop}

/-- What happens though less may happen, may happen. -/
theorem mono {s : Workshop Dated} (h : s.DatedReachable c workers may)
    (himp : ∀ f id, may f id → may' f id) : s.DatedReachable c workers may' := by
  unfold DatedReachable at h ⊢
  refine h.lift id fun a b hs => ?_
  cases hs with
  | wait hl => exact .wait hl
  | submit t => exact .submit t
  | begin ht hw => exact .begin ht hw
  | work hb hpass hs => exact .work hb (fun f id hp => himp f id (hpass f id hp)) hs
  | finish hb hd hh => exact .finish hb hd hh

end Workshop.DatedReachable

namespace Errand

variable {c : CacheConfig} {workers : ℕ} {may : SimilarityFilter → Int → Prop} {e e' : Errand}
  {d d' : Dated} {after : Shelf} {f : SimilarityFilter} {posts : List Post} {id : Int}

/-- Where a worker may come in a workshop without others. -/
def Endures (c : CacheConfig) (workers : ℕ) (may : SimilarityFilter → Int → Prop) (e : Errand)
    (d : Dated) (e' : Errand) (d' : Dated) : Prop :=
  Relation.ReflTransGen (Workshop.DatedStep c workers may) ⟨[], [e.worker c], d⟩
    ⟨[], [e'.worker c], d'⟩

theorem Endures.trans {e'' : Errand} {d'' : Dated} (h : e.Endures c workers may d e' d')
    (h' : e'.Endures c workers may d' e'' d'') : e.Endures c workers may d e'' d'' :=
  Relation.ReflTransGen.trans h h'

/-- Only the write-back of a filter passes an index entry that lists it. -/
theorem filter_of_passes {f' : SimilarityFilter} (h : (e.worker c).Passes d f' id)
    (ht : e.task = .keep f posts) : f' = f := by
  obtain ⟨posts', htask⟩ := h.task
  rw [task_worker, ht] at htask
  exact (IndexTask.keep.inj htask).1.symm

theorem not_passes_of_forget {other : Int} (ht : e.task = .forget other) :
    ¬(e.worker c).Passes d f id := by
  intro h
  obtain ⟨posts, htask⟩ := h.task
  rw [task_worker, ht] at htask
  cases htask

/-- A step that a worker makes alone. -/
theorem endures_of_worker (hs : (e.worker c).Step .dated False e.held d (e'.worker c) d')
    (hmay : ∀ f id, (e.worker c).Passes d f id → may f id) : e.Endures c workers may d e' d' := by
  rw [← e.taken_alone c d] at hs
  exact .single (.work (List.nil_append [e.worker c]).symm hmay hs)

/-- What a worker does alone to what can be read, it does to the store. -/
theorem Step.endures (workers : ℕ) (h : e.Step e.held d.readable e' after)
    (hpos : 0 < c.similarTtl) (hle : c.similarTtl ≤ c.similarIdsTtl)
    (hmay : ∀ f id, (e.worker c).Passes d f id → may f id) :
    ∃ d', e.Endures c workers may d e' d' ∧ d'.readable = after ∧ d'.now = d.now ∧
      d'.ends = d.endsAfter (e.worker c).rest := by
  obtain ⟨d', hs, hread⟩ := h.worker.exists_dated (e.ttl_pos hpos hle)
  exact ⟨d', endures_of_worker hs hmay, hread, hs.now_eq, hs.ends_eq⟩

/-- A purge sets nothing. -/
theorem endsAfter_of_forget {other : Int} (ht : e.task = .forget other) :
    d.endsAfter (e.worker c).rest = d.ends := by
  cases e with
  | locking t n =>
    obtain rfl : t = .forget other := ht
    rcases hnext : (stripesOf (IndexTask.forget other).ids)[n]? with _ | i
    · rw [worker_locking (List.getElem?_eq_none_iff.1 hnext)]
      rfl
    · rw [worker_locking_of_next hnext]
      rfl
  | listing f posts todo => cases ht
  | writing f posts id entry todo => cases ht
  | clearing id listed => cases listed <;> rfl
  | ending t held => rfl

/-- All that a purge does alone, it can do at one time. -/
theorem Runs.endures {other : Int} (h : e.Runs d.readable e' after)
    (ht : e.task = .forget other) (hpos : 0 < c.similarTtl)
    (hle : c.similarTtl ≤ c.similarIdsTtl) :
    ∃ d', e.Endures c workers may d e' d' ∧ d'.readable = after ∧ d'.now = d.now ∧
      d'.ends = d.ends := by
  suffices hto : ∀ b : Errand × Shelf, Relation.ReflTransGen
      (fun a b : Errand × Shelf => a.1.Step a.1.held a.2 b.1 b.2) (e, d.readable) b →
      b.1.task = .forget other ∧ ∃ d', e.Endures c workers may d b.1 d' ∧ d'.readable = b.2 ∧
        d'.now = d.now ∧ d'.ends = d.ends from (hto (e', after) h).2
  intro b hb
  induction hb with
  | refl => exact ⟨ht, d, .refl, rfl, rfl, rfl⟩
  | @tail a b _ hs ih =>
    obtain ⟨hta, d₁, hpath, hread, hnow, hends⟩ := ih
    rw [← hread] at hs
    obtain ⟨d₂, hstep, hread₂, hnow₂, hends₂⟩ :=
      hs.endures workers hpos hle fun f id hp => absurd hp (not_passes_of_forget hta)
    refine ⟨hs.task_eq.trans hta, d₂, hpath.trans hstep, hread₂, hnow₂.trans hnow, ?_⟩
    rw [hends₂, endsAfter_of_forget hta, hends]

theorem endures_lock (t : IndexTask) (n : ℕ) (hn : n ≤ (stripesOf t.ids).length) :
    (locking t 0).Endures c workers may d (locking t n) d := by
  induction n with
  | zero => exact .refl
  | succ n ih =>
    refine (ih (Nat.le_of_succ_le hn)).trans ?_
    have hlock : (locking t n).Step (locking t n).held d.readable (locking t (n + 1)) d.readable :=
      step_lock t hn
    cases hlock with
    | lock hget hfree =>
      have hs : ((locking t n).worker c).Step .dated False (locking t n).held d
          ((locking t (n + 1)).worker c) d := by
        rw [worker_locking_of_next hget, worker_locking_succ hget]
        exact .lock rfl hfree
      refine endures_of_worker hs fun f id hp => ?_
      obtain ⟨next, hr⟩ := hp.rest
      rw [worker_locking_of_next hget] at hr
      cases hr

theorem endures_unlock (t : IndexTask) (held : List ℕ) :
    (ending t held).Endures c workers may d (ending t []) d := by
  induction held with
  | nil => exact .refl
  | cons i held ih =>
    have hs : ((ending t (i :: held)).worker c).Step .dated False (ending t (i :: held)).held d
        ((ending t held).worker c) d := .unlock rfl rfl
    refine (endures_of_worker hs fun f id hp => ?_).trans ih
    obtain ⟨next, hr⟩ := hp.rest
    cases hr

/-! ## A write-back alone -/

/-- What a write-back does that lists its result for some posts. It leaves alone
the entries that list it already. -/
structure Lists (f : SimilarityFilter) (todo : List Int) (d d' : Dated) : Prop where
  now : d'.now = d.now
  result : d'.readable (Namespace.similar.key (Fingerprint.of f.toJson)) =
    d.readable (Namespace.similar.key (Fingerprint.of f.toJson))
  ends : d'.ends (Namespace.similar.key (Fingerprint.of f.toJson)) =
    d.ends (Namespace.similar.key (Fingerprint.of f.toJson))
  others : ∀ id ∉ todo, d'.readable (indexKey id) = d.readable (indexKey id)
  kept : ∀ id, Fingerprint.of f.toJson ∈ d.readable.listed id →
    d'.readable (indexKey id) = d.readable (indexKey id) ∧
      d'.ends (indexKey id) = d.ends (indexKey id)

theorem Lists.trans {todo todo' : List Int} {d'' : Dated} (h : Lists f todo d d')
    (h' : Lists f todo' d' d'') : Lists f (todo ++ todo') d d'' where
  now := h'.now.trans h.now
  result := h'.result.trans h.result
  ends := h'.ends.trans h.ends
  others id hid := by
    rw [List.mem_append, not_or] at hid
    exact (h'.others id hid.2).trans (h.others id hid.1)
  kept id hid := by
    obtain ⟨hsame, hends⟩ := h.kept id hid
    have hid' : Fingerprint.of f.toJson ∈ d'.readable.listed id := by
      rwa [Shelf.listed, Shelf.entry, hsame]
    obtain ⟨hsame', hends'⟩ := h'.kept id hid'
    exact ⟨hsame'.trans hsame, hends'.trans hends⟩

/-- Whether a write-back may leave alone every entry that lists its result and
ends before the result. -/
def MayPass (c : CacheConfig) (may : SimilarityFilter → Int → Prop) (f : SimilarityFilter)
    (d : Dated) : Prop :=
  d.ends (Namespace.similar.key (Fingerprint.of f.toJson)) ≤ d.now + c.similarTtl * second ∧
    ∀ id, Fingerprint.of f.toJson ∈ d.readable.listed id → may f id ∨
      d.ends (Namespace.similar.key (Fingerprint.of f.toJson)) ≤ d.ends (indexKey id)

theorem MayPass.passes (h : MayPass c may f d) (ht : e.task = .keep f posts)
    (f' : SimilarityFilter) (id : Int) (hp : (e.worker c).Passes d f' id) : may f' id := by
  obtain rfl := filter_of_passes hp ht
  exact (h.2 id hp.listed).resolve_right (Nat.not_le_of_lt hp.sooner)

/-- Nothing has been written. -/
theorem Lists.of_same {todo : List Int} (hread : d'.readable = d.readable) (hnow : d'.now = d.now)
    (hends : d'.ends = d.ends) : Lists f todo d d' where
  now := hnow
  result := by rw [hread]
  ends := by rw [hends]
  others _ _ := by rw [hread]
  kept _ _ := by rw [hread, hends]; exact ⟨rfl, rfl⟩

theorem MayPass.of_same (h : MayPass c may f d) (hread : d'.readable = d.readable)
    (hnow : d'.now = d.now) (hends : d'.ends = d.ends) : MayPass c may f d' := by
  rwa [MayPass, hread, hnow, hends]

/-- An index entry that did not list the result has been written. -/
theorem Lists.of_write {entry : Kept} (hnot : Fingerprint.of f.toJson ∉ d.readable.listed id)
    (hread : d'.readable = Function.update d.readable (indexKey id) (some entry))
    (hnow : d'.now = d.now)
    (hends : d'.ends = Function.update d.ends (indexKey id) (d.now + c.similarIdsTtl * second)) :
    Lists f [id] d d' where
  now := hnow
  result := by rw [hread, Function.update_of_ne (similarKey_ne_indexKey _ _)]
  ends := by rw [hends, Function.update_of_ne (similarKey_ne_indexKey _ _)]
  others x hx := by
    have hne : indexKey x ≠ indexKey id :=
      fun hk => hx (List.mem_singleton.2 (indexKey_injective hk))
    rw [hread, Function.update_of_ne hne]
  kept x hx := by
    have hne : indexKey x ≠ indexKey id := fun hk => hnot (indexKey_injective hk ▸ hx)
    rw [hread, hends, Function.update_of_ne hne, Function.update_of_ne hne]
    exact ⟨rfl, rfl⟩

theorem MayPass.of_write {entry : Kept} (h : MayPass c may f d)
    (hle : c.similarTtl ≤ c.similarIdsTtl)
    (hread : d'.readable = Function.update d.readable (indexKey id) (some entry))
    (hnow : d'.now = d.now)
    (hends : d'.ends = Function.update d.ends (indexKey id) (d.now + c.similarIdsTtl * second)) :
    MayPass c may f d' := by
  rw [MayPass, hread, hnow, hends, Function.update_of_ne (similarKey_ne_indexKey _ _)]
  refine ⟨h.1, fun x hx => ?_⟩
  by_cases he : x = id
  · rw [he, Function.update_self]
    exact .inr (h.1.trans (Nat.add_le_add_left (Nat.mul_le_mul_right second hle) d.now))
  · rw [Shelf.listed_update_of_ne _ he] at hx
    rw [Function.update_of_ne fun hk => he (indexKey_injective hk)]
    exact h.2 x hx

/-- It keeps its result. -/
theorem endures_keep (f : SimilarityFilter) (posts : List Post) (d : Dated)
    (hpos : 0 < c.similarTtl) (hle : c.similarTtl ≤ c.similarIdsTtl) :
    ∃ d', (locking (.keep f posts) (stripesOf (contributors f posts)).length).Endures c workers may
        d (listing f posts (contributors f posts)) d' ∧
      d'.readable = Function.update d.readable (Namespace.similar.key (Fingerprint.of f.toJson))
        (some ⟨(Json.ofList Post.toJson posts).encoded, .keep f posts⟩) ∧
      d'.now = d.now ∧
      d'.ends = Function.update d.ends (Namespace.similar.key (Fingerprint.of f.toJson))
        (d.now + c.similarTtl * second) := by
  have hrest : ((locking (.keep f posts) (stripesOf (contributors f posts)).length).worker c).rest =
      (IndexTask.keep f posts).body c := congrArg Worker.rest (worker_locking (le_refl _))
  have hkeep : (locking (.keep f posts) (stripesOf (contributors f posts)).length).Step
      (locking (.keep f posts) (stripesOf (contributors f posts)).length).held d.readable
      (listing f posts (contributors f posts)) _ := .keep (le_refl _)
  obtain ⟨d', hpath, hread, hnow, hends⟩ := hkeep.endures workers hpos hle fun g id hp => by
    obtain ⟨next, hr⟩ := hp.rest
    rw [hrest] at hr
    cases hr
  rw [hrest] at hends
  exact ⟨d', hpath, hread, hnow, hends⟩

/-- It lists its result for one post. -/
theorem endures_remember (posts : List Post) (todo : List Int) (id : Int)
    (hpos : 0 < c.similarTtl) (hle : c.similarTtl ≤ c.similarIdsTtl) (hmay : MayPass c may f d) :
    ∃ d', (listing f posts (id :: todo)).Endures c workers may d (listing f posts todo) d' ∧
      Lists f [id] d d' ∧ MayPass c may f d' := by
  cases ha : IndexEntry.adding? (d.readable.entry id) (Fingerprint.of f.toJson) with
  | none =>
    have hskip : (listing f posts (id :: todo)).Step (listing f posts (id :: todo)).held d.readable
        (listing f posts todo) d.readable := .skip ha
    obtain ⟨d', hpath, hread, hnow, hends⟩ := hskip.endures workers hpos hle (hmay.passes rfl)
    exact ⟨d', hpath, .of_same hread hnow hends, hmay.of_same hread hnow hends⟩
  | some entry =>
    have hnot : Fingerprint.of f.toJson ∉ d.readable.listed id := IndexEntry.not_mem_of_adding? ha
    have hadd : (listing f posts (id :: todo)).Step (listing f posts (id :: todo)).held d.readable
        (writing f posts id entry todo) d.readable := .add ha
    obtain ⟨d₁, hpath₁, hread₁, hnow₁, hends₁⟩ := hadd.endures workers hpos hle (hmay.passes rfl)
    have hmay₁ := hmay.of_same hread₁ hnow₁ hends₁
    have hwrite : (writing f posts id entry todo).Step (writing f posts id entry todo).held
        d₁.readable (listing f posts todo) _ := .write
    obtain ⟨d₂, hpath₂, hread₂, hnow₂, hends₂⟩ :=
      hwrite.endures workers hpos hle (hmay₁.passes rfl)
    have hsame : Lists f [] d d₁ := .of_same hread₁ hnow₁ hends₁
    have hlists : Lists f [id] d₁ d₂ := .of_write (hread₁ ▸ hnot) hread₂ hnow₂ hends₂
    exact ⟨d₂, hpath₁.trans hpath₂, hsame.trans hlists, hmay₁.of_write hle hread₂ hnow₂ hends₂⟩

/-- It lists its result for all its posts. -/
theorem endures_list (posts : List Post) (todo : List Int) (hpos : 0 < c.similarTtl)
    (hle : c.similarTtl ≤ c.similarIdsTtl) (hmay : MayPass c may f d) :
    ∃ d', (listing f posts todo).Endures c workers may d (listing f posts []) d' ∧
      Lists f todo d d' := by
  induction todo generalizing d with
  | nil => exact ⟨d, .refl, .of_same rfl rfl rfl⟩
  | cons id todo ih =>
    obtain ⟨d₁, hpath₁, hlists₁, hmay₁⟩ := endures_remember posts todo id hpos hle hmay
    obtain ⟨d₂, hpath₂, hlists₂⟩ := ih hmay₁
    exact ⟨d₂, hpath₁.trans hpath₂, hlists₁.trans hlists₂⟩

end Errand

/-! ## One task after the other -/

namespace Workshop.DatedReachable

variable {c : CacheConfig} {workers : ℕ} {may : SimilarityFilter → Int → Prop} {d d' : Dated}

/-- A task that is submitted while there are no others gets its stripes and
comes to an end. -/
theorem endures (hw : 0 < workers) {t t' : IndexTask} {held : List ℕ}
    (hr : DatedReachable c workers may ⟨[], [], d⟩)
    (h : (Errand.locking t (stripesOf t.ids).length).Endures c workers may d
      (.ending t' held) d') :
    DatedReachable c workers may ⟨[], [], d'⟩ := by
  have hbegun := (hr.tail (.submit t)).tail (.begin rfl hw)
  rw [IndexTask.job_eq] at hbegun
  have hended := ((Errand.endures_lock t _ (le_refl _)).trans h).trans
    (Errand.endures_unlock t' held)
  have hfinish : DatedStep c workers may ⟨[], [] ++ [(Errand.ending t' []).worker c], d'⟩
      ⟨[], [] ++ [], d'⟩ := .finish rfl rfl rfl
  exact (Relation.ReflTransGen.trans hbegun hended).tail hfinish

/-- A purge removes the index entry of its post and leaves the others. -/
theorem forgets (hw : 0 < workers) (hpos : 0 < c.similarTtl)
    (hle : c.similarTtl ≤ c.similarIdsTtl) (id : Int)
    (hr : DatedReachable c workers may ⟨[], [], d⟩) :
    ∃ d', DatedReachable c workers may ⟨[], [], d'⟩ ∧ d'.now = d.now ∧ d'.ends = d.ends ∧
      d'.readable (indexKey id) = none ∧
      ∀ other ≠ id, d'.readable (indexKey other) = d.readable (indexKey other) := by
  obtain ⟨after, held, hruns, hnone, hothers⟩ := Errand.runs_forget id d.readable
  obtain ⟨d', hpath, rfl, hnow, hends⟩ := hruns.endures (c := c) rfl hpos hle
  exact ⟨d', hr.endures hw hpath, hnow, hends, hnone, hothers⟩

/-- A write-back keeps its result and lists it. -/
theorem keeps (hw : 0 < workers) (hpos : 0 < c.similarTtl) (hle : c.similarTtl ≤ c.similarIdsTtl)
    (f : SimilarityFilter) (posts : List Post)
    (hmay : ∀ id, Fingerprint.of f.toJson ∈ d.readable.listed id → may f id)
    (hr : DatedReachable c workers may ⟨[], [], d⟩) :
    ∃ d', DatedReachable c workers may ⟨[], [], d'⟩ ∧ d'.now = d.now ∧
      d'.readable (Namespace.similar.key (Fingerprint.of f.toJson)) =
        some ⟨(Json.ofList Post.toJson posts).encoded, .keep f posts⟩ ∧
      d'.ends (Namespace.similar.key (Fingerprint.of f.toJson)) =
        d.now + c.similarTtl * second ∧
      (∀ id ∉ contributors f posts, d'.readable (indexKey id) = d.readable (indexKey id)) ∧
      ∀ id, Fingerprint.of f.toJson ∈ d.readable.listed id →
        d'.ends (indexKey id) = d.ends (indexKey id) := by
  obtain ⟨d₁, hpath₁, hread₁, hnow₁, hends₁⟩ := Errand.endures_keep f posts d hpos hle
  have hlisted : ∀ id, d₁.readable.listed id = d.readable.listed id := by
    intro id
    rw [hread₁, Shelf.listed_update_result]
  have hmay₁ : Errand.MayPass c may f d₁ := by
    refine ⟨?_, fun id hid => .inl (hmay id (hlisted id ▸ hid))⟩
    rw [hends₁, Function.update_self, hnow₁]
  obtain ⟨d₂, hpath₂, hlists⟩ :=
    Errand.endures_list posts (contributors f posts) hpos hle hmay₁
  obtain ⟨i, held, hheld⟩ := List.exists_cons_of_ne_nil (List.ne_nil_of_mem
    (stripe_mem_stripesOf (mem_contributors.2 (.inl rfl) : f.id ∈ contributors f posts)))
  have hend : (Errand.listing f posts []).Endures c workers may d₂ (.ending (.keep f posts) held)
      d₂ := by
    have hs : ((Errand.listing f posts []).worker c).Step .dated False
        (Errand.listing f posts []).held d₂ ((Errand.ending (.keep f posts) held).worker c) d₂ :=
      .unlock rfl hheld
    refine Errand.endures_of_worker hs fun g id hp => ?_
    obtain ⟨next, hr⟩ := hp.rest
    cases hr
  refine ⟨d₂, hr.endures hw ((hpath₁.trans hpath₂).trans hend), hlists.now.trans hnow₁, ?_, ?_,
    fun id hid => ?_, fun id hid => ?_⟩
  · rw [hlists.result, hread₁, Function.update_self]
  · rw [hlists.ends, hends₁, Function.update_self]
  · rw [hlists.others id hid, hread₁, Function.update_of_ne (similarKey_ne_indexKey _ _).symm]
  · rw [(hlists.kept id (hlisted id ▸ hid)).2, hends₁,
      Function.update_of_ne (similarKey_ne_indexKey _ _).symm]

end Workshop.DatedReachable

/-! ## A listing that lapses -/

section
variable {c : CacheConfig} {workers : ℕ} {may : SimilarityFilter → Int → Prop}

/-- A result of two posts is kept and purged through the one; then its listing for
the other is about to end. -/
theorem exists_last_moment (hw : 0 < workers) (hpos : 0 < c.similarTtl)
    (hle : c.similarTtl ≤ c.similarIdsTtl) {f : SimilarityFilter} {posts : List Post}
    {id other : Int} (hne : other ≠ id)
    (hids : ∀ x, x ∈ contributors f posts ↔ x = id ∨ x = other) :
    ∃ d : Dated, Workshop.DatedReachable c workers (fun _ _ => False) ⟨[], [], d⟩ ∧
      d.now + 1 = d.ends (indexKey id) ∧
      ∀ x, Fingerprint.of f.toJson ∈ d.readable.listed x ↔ x = id := by
  have hnone : ∀ x, Fingerprint.of f.toJson ∉ Dated.start.readable.listed x := by
    intro x
    rw [Shelf.listed_of_none (congrFun Dated.readable_start _)]
    exact List.not_mem_nil
  -- the result is kept for the first time, with no entry that could be passed
  have hstart : Workshop.DatedReachable c workers (fun _ _ => False) ⟨[], [], Dated.start⟩ := .refl
  obtain ⟨d₁, hr₁, -, hf₁, -, hothers₁, -⟩ :=
    hstart.keeps hw hpos hle f posts fun x hx => hnone x hx
  have hlisted₁ : Fingerprint.of f.toJson ∈ d₁.readable.listed id := by
    obtain ⟨f', posts', ⟨hfound, -⟩, hlisted⟩ :=
      hr₁.indexed hpos hle (fun _ _ h => h) rfl _ _ hf₁
    obtain ⟨rfl, rfl⟩ : f = f' ∧ posts = posts' := by simpa using congrArg Kept.writer hfound
    exact hlisted id (mem_contributors.1 ((hids id).2 (.inl rfl)))
  -- it is purged through the other post
  obtain ⟨d₂, hr₂, -, -, hnone₂, hothers₂⟩ := hr₁.forgets hw hpos hle other
  obtain ⟨entry, hentry, hread⟩ := Shelf.mem_listed.1 hlisted₁
  rw [← hothers₂ id hne.symm] at hentry
  obtain ⟨hlt, hshelf⟩ := Dated.readable_eq_some.1 hentry
  -- and the time is up for the index entry but for one moment
  have hlater : d₂.now ≤ d₂.ends (indexKey id) - 1 := Nat.le_sub_one_of_lt hlt
  refine ⟨{ d₂ with now := d₂.ends (indexKey id) - 1 }, hr₂.tail (.wait hlater),
    Nat.sub_add_cancel (Nat.one_le_of_lt hlt), fun x => ⟨fun hx => ?_, ?_⟩⟩
  · obtain ⟨found, hfound, -⟩ := Shelf.mem_listed.1 hx
    have hfound₂ : d₂.readable (indexKey x) = some found := Dated.readable_of_later hlater hfound
    have hother : x ≠ other := by
      rintro rfl
      rw [hnone₂] at hfound₂
      cases hfound₂
    by_contra hid
    have hnot : x ∉ contributors f posts := fun hmem => ((hids x).1 hmem).elim hid hother
    rw [hothers₂ x hother, hothers₁ x hnot, Dated.readable_start] at hfound₂
    cases hfound₂
  · rintro rfl
    exact Shelf.mem_listed.2
      ⟨entry, Dated.readable_eq_some.2 ⟨Nat.sub_one_lt_of_lt hlt, hshelf⟩, hread⟩

/-- If the result is kept again at the last moment, it outlasts its listing. -/
theorem exists_lapsed (hw : 0 < workers) (hpos : 0 < c.similarTtl)
    (hle : c.similarTtl ≤ c.similarIdsTtl) {f : SimilarityFilter} {posts : List Post}
    {id other : Int} (hne : other ≠ id)
    (hids : ∀ x, x ∈ contributors f posts ↔ x = id ∨ x = other) (hmay : may f id) :
    ∃ d : Dated, Workshop.DatedReachable c workers may ⟨[], [], d⟩ ∧
      d.readable.Loses f posts id := by
  obtain ⟨d, hr, hmoment, hlisted⟩ := exists_last_moment hw hpos hle hne hids
  have hmay' : ∀ x, Fingerprint.of f.toJson ∈ d.readable.listed x → may f x := by
    intro x hx
    rwa [(hlisted x).1 hx]
  obtain ⟨d', hr', hnow, hf, hends, -, hkept⟩ :=
    (hr.mono fun _ _ h => h.elim).keeps hw hpos hle f posts hmay'
  have hstop : d'.ends (indexKey id) = d'.now + 1 := by
    rw [hkept id ((hlisted id).2 rfl), hnow, hmoment]
  have hlonger : d'.now + 1 < d'.ends (Namespace.similar.key (Fingerprint.of f.toJson)) := by
    have hlong : 2 ≤ c.similarTtl * second :=
      (by decide : 2 ≤ second).trans (Nat.le_mul_of_pos_left second hpos)
    rw [hends, hnow]
    omega
  refine ⟨{ d' with now := d'.now + 1 }, hr'.tail (.wait (Nat.le_succ _)), ?_,
    (hids id).2 (.inl rfl), ?_⟩
  · exact Dated.readable_eq_some.2 ⟨hlonger, (Dated.readable_eq_some.1 hf).2⟩
  · rw [Shelf.listed_of_none (if_neg (Nat.not_lt_of_le hstop.le))]
    exact List.not_mem_nil

end

/-- Whether every result that can be read while nobody is at work is listed for
all its posts in entries that can be read. -/
def IndexOutlives (c : CacheConfig) (may : SimilarityFilter → Int → Prop) : Prop :=
  ∀ s : Workshop Dated, s.DatedReachable c c.workersFloor may → s.waiting = [] → s.busy = [] →
    s.store.readable.Indexed

/-- The index outlives the results iff write-backs never leave alone an index
entry that lists their result and ends before it. -/
theorem index_outlives_iff (c : CacheConfig) (may : SimilarityFilter → Int → Prop)
    (hpos : 0 < c.similarTtl) (hle : c.similarTtl ≤ c.similarIdsTtl) :
    IndexOutlives c may ↔ ∀ f id, ¬may f id := by
  constructor
  · intro h f id hmay
    have hw : 0 < c.workersFloor := Nat.lt_of_lt_of_le Nat.zero_lt_one (Nat.le_max_right _ _)
    obtain ⟨other, posts, hne, hids⟩ : ∃ (other : Int) (posts : List Post), other ≠ id ∧
        ∀ x, x ∈ contributors f posts ↔ x = id ∨ x = other := by
      by_cases he : id = f.id
      · refine ⟨f.id + 1, [{ Post.neighbour with id := f.id + 1 }], by omega, fun x => ?_⟩
        simp [mem_contributors, he, eq_comm]
      · refine ⟨f.id, [{ Post.neighbour with id := id }], Ne.symm he, fun x => ?_⟩
        simp [mem_contributors, or_comm, eq_comm]
    obtain ⟨d, hr, hloses⟩ := exists_lapsed hw hpos hle hne hids hmay
    exact hloses.not_indexed (h _ hr rfl rfl)
  · intro hmay s hr _ hidle
    exact hr.indexed hpos hle hmay hidle

/-- With the default settings the index outlives the results of write-backs that
never pass an entry. -/
theorem index_outlives_of_default :
    0 < ({} : CacheConfig).similarTtl ∧
      ({} : CacheConfig).similarTtl ≤ ({} : CacheConfig).similarIdsTtl ∧
      IndexOutlives {} fun _ _ => False :=
  ⟨by decide, by decide, (index_outlives_iff {} _ (by decide) (by decide)).2 fun _ _ h => h⟩

/-- With the default settings the result for post 1 that has post 2 can still be
read when its listing for post 2 has lapsed. -/
theorem neighbour_outlives_listing :
    ∃ s : Workshop Dated, ∃ found : Kept,
      s.DatedReachable {} 4 (fun _ _ => True) ∧ s.waiting = [] ∧ s.busy = [] ∧
      s.store.readable (Namespace.similar.key (Fingerprint.of (SimilarityFilter.around 1).toJson)) =
        some found ∧
      found.IsResult (Fingerprint.of (SimilarityFilter.around 1).toJson) (.around 1)
        [.neighbour] ∧
      Fingerprint.of (SimilarityFilter.around 1).toJson ∉
        s.store.readable.listed Post.neighbour.id := by
  have hids : ∀ x : Int, x ∈ contributors (.around 1) [.neighbour] ↔ x = 2 ∨ x = 1 := by
    intro x
    simp [mem_contributors, SimilarityFilter.around, Post.neighbour, or_comm, eq_comm]
  obtain ⟨d, hr, hf, -, hnot⟩ :
      ∃ d : Dated, Workshop.DatedReachable {} 4 (fun _ _ => True) ⟨[], [], d⟩ ∧
        d.readable.Loses (.around 1) [.neighbour] 2 :=
    exists_lapsed (by decide) (by decide) (by decide) (by decide) hids trivial
  exact ⟨⟨[], [], d⟩, _, hr, rfl, rfl, hf, ⟨rfl, rfl⟩, hnot⟩

end FilmCatalog
