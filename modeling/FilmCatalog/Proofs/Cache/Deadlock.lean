import FilmCatalog.Proofs.Cache.Alone
import FilmCatalog.Proofs.Cache.Ledger

/-!
# Index tasks never lock each other out

A task takes its stripes in ascending order, so whatever answers it gets, each
stripe that it goes on to take is above all that it holds. The workers that
wait for each other therefore want ever higher stripes, and the worker with the
highest stripe of all waits for nobody.

This holds for all backends, and also when tasks are cut off between any two of
their steps.

Key definitions: `Job.Climbs`, `Workshop.Orderly`, `Workshop.Waits`, `Backend.Answers`.
Key theorems: `climbs_job`, `not_cycle_of_lt`, `exists_foremost`, `Workshop.Orderly.step`,
`Workshop.Orderly.not_cycle`, `Workshop.Orderly.drains`.
-/

namespace FilmCatalog

/-! ## Jobs that climb -/

/-- Whether every stripe that a job goes on to take is above all that are held,
whatever the answers to its calls. -/
def Job.Climbs : Job → List ℕ → Prop
  | .done, _ => True
  | .panic, _ => True
  | .lock i next, held => i < stripeCount ∧ (∀ j ∈ held, j < i) ∧ next.Climbs (held ++ [i])
  | .get _ next, held => ∀ answer, (next answer).Climbs held
  | .set _ _ _ next, held => ∀ answer, (next answer).Climbs held
  | .delete _ next, held => ∀ answer, (next answer).Climbs held
  | .count _ _ next, held => next.Climbs held
  | .sleep _ next, held => next.Climbs held
  | .gate _ next, held => next.Climbs held

namespace Job

/-- It climbs as well when nothing higher is held. -/
theorem Climbs.mono {job : Job} {held held' : List ℕ} (h : job.Climbs held)
    (hle : ∀ i ∈ held', ∃ j ∈ held, i ≤ j) : job.Climbs held' := by
  induction job generalizing held held' with
  | done => trivial
  | panic => trivial
  | lock i next ih =>
    obtain ⟨hlt, habove, hnext⟩ := h
    refine ⟨hlt, fun j hj => ?_, ih hnext fun j hj => ?_⟩
    · obtain ⟨k, hk, hjk⟩ := hle j hj
      exact hjk.trans_lt (habove k hk)
    · rcases List.mem_append.1 hj with hj | hj
      · obtain ⟨k, hk, hjk⟩ := hle j hj
        exact ⟨k, List.mem_append_left _ hk, hjk⟩
      · exact ⟨j, List.mem_append_right _ hj, le_refl j⟩
  | get key next ih => exact fun answer => ih answer (h answer) hle
  | set key value ttl next ih => exact fun answer => ih answer (h answer) hle
  | delete key next ih => exact fun answer => ih answer (h answer) hle
  | count c ns next ih => exact ih h hle
  | sleep ms next ih => exact ih h hle
  | gate name next ih => exact ih h hle

variable {held : List ℕ} {next : Job}

theorem climbs_remember (id : Int) (fingerprint : String) (ttl : ℕ) (h : next.Climbs held) :
    (Job.remember id fingerprint ttl next).Climbs held := by
  rw [remember, Climbs]
  rintro (fault | found)
  · exact h
  · dsimp only
    split
    · exact h
    · intro answer
      cases answer <;> exact h

theorem climbs_remove (ns : Namespace) (key : String) (h : next.Climbs held) :
    (Job.remove ns key next).Climbs held := by
  intro answer
  cases answer <;> exact h

theorem climbs_listAll (c : CacheConfig) (fingerprint : String) (ids : List Int) :
    (Job.listAll c fingerprint ids).Climbs held := by
  induction ids with
  | nil => trivial
  | cons id rest ih => exact climbs_remember id fingerprint c.similarIdsTtl ih

theorem climbs_clearAll (id : Int) (listed : List String) :
    (Job.clearAll id listed).Climbs held := by
  induction listed with
  | nil => exact climbs_remove _ _ trivial
  | cons fingerprint rest ih => exact climbs_remove _ _ ih

/-- Stripes that ascend can be taken one after the other. -/
theorem climbs_lockAll {stripes : List ℕ} (hsorted : stripes.Pairwise (· < ·))
    (hlt : ∀ i ∈ stripes, i < stripeCount) (habove : ∀ i ∈ stripes, ∀ j ∈ held, j < i)
    (hnext : next.Climbs (held ++ stripes)) : (Job.lockAll stripes next).Climbs held := by
  induction stripes generalizing held with
  | nil =>
    rw [List.append_nil] at hnext
    exact hnext
  | cons i rest ih =>
    obtain ⟨hfirst, hrest⟩ := List.pairwise_cons.1 hsorted
    refine ⟨hlt i List.mem_cons_self, habove i List.mem_cons_self,
      ih hrest (fun k hk => hlt k (List.mem_cons_of_mem i hk)) (fun k hk j hj => ?_) ?_⟩
    · rcases List.mem_append.1 hj with hj | hj
      · exact habove k (List.mem_cons_of_mem i hk) j hj
      · obtain rfl := List.mem_singleton.1 hj
        exact hfirst k hk
    · rwa [List.append_assoc]

end Job

theorem stripesOf_ascending (ids : List Int) : (stripesOf ids).Pairwise (· < ·) :=
  List.pairwise_lt_range.filter _

theorem lt_of_mem_stripesOf {ids : List Int} {i : ℕ} (h : i ∈ stripesOf ids) : i < stripeCount :=
  List.mem_range.1 (List.mem_filter.1 h).1

/-- After its locks a task takes no more. -/
theorem climbs_body (c : CacheConfig) (t : IndexTask) (held : List ℕ) : (t.body c).Climbs held := by
  cases t with
  | keep f posts =>
    intro answer
    cases answer with
    | error fault => trivial
    | ok _ => exact Job.climbs_listAll c _ _
  | forget id =>
    intro found
    match found with
    | .error fault => trivial
    | .ok none => trivial
    | .ok (some entry) => exact Job.climbs_clearAll id _

theorem climbs_job (c : CacheConfig) (t : IndexTask) : (t.job c).Climbs [] := by
  rw [IndexTask.job_eq]
  exact Job.climbs_lockAll (stripesOf_ascending t.ids) (fun i hi => lt_of_mem_stripesOf hi)
    (fun i _ j hj => absurd hj List.not_mem_nil) (climbs_body c t _)

/-! ## Wanting more than what one has -/

/-- If all want only what is above what they hold, nobody waits for himself,
also not by way of others. -/
theorem not_cycle_of_lt {α : Type} {wants holds : α → ℕ → Prop}
    (h : ∀ a i j, wants a i → holds a j → j < i) (a : α) :
    ¬ Relation.TransGen (fun a b => ∃ i, wants a i ∧ holds b i) a a := by
  -- along a chain of waits the stripes rise
  suffices ∀ b, Relation.TransGen (fun a b => ∃ i, wants a i ∧ holds b i) a b →
      ∃ i j, wants a i ∧ holds b j ∧ i ≤ j by
    intro hcycle
    obtain ⟨i, j, hi, hj, hle⟩ := this a hcycle
    exact absurd hle (h a i j hi hj).not_ge
  intro b hab
  induction hab with
  | single hab =>
    obtain ⟨i, hi, hj⟩ := hab
    exact ⟨i, i, hi, hj, le_refl i⟩
  | tail _ hbc ih =>
    obtain ⟨i, j, hi, hj, hle⟩ := ih
    obtain ⟨k, hk, hmem⟩ := hbc
    exact ⟨i, k, hi, hmem, hle.trans (h _ k j hk hj).le⟩

/-- Somebody holds the highest stripe, or nobody holds any. -/
theorem exists_foremost {α : Type} {l : List α} (held : α → List ℕ) (h : l ≠ []) :
    ∃ before a behind, l = before ++ a :: behind ∧
      ∀ i ∈ l.flatMap held, ∃ j ∈ held a, i ≤ j := by
  cases htaken : l.flatMap held with
  | nil =>
    obtain ⟨a, rest, hl⟩ := List.exists_cons_of_ne_nil h
    exact ⟨[], a, rest, hl, fun i hi => absurd hi List.not_mem_nil⟩
  | cons i rest =>
    obtain ⟨top, hmem, htop⟩ := (i :: rest).toFinset.exists_max_image id ⟨i, by simp⟩
    rw [List.mem_toFinset, ← htaken, List.mem_flatMap] at hmem
    obtain ⟨a, ha, hheld⟩ := hmem
    obtain ⟨before, behind, hl⟩ := List.append_of_mem ha
    exact ⟨before, a, behind, hl, fun j hj => ⟨top, hheld, htop j (List.mem_toFinset.2 hj)⟩⟩

/-! ## What a step changes -/

section Step
variable {σ : Type} {B : Backend σ} {cuts : Prop} {taken : List ℕ} {w w' : Worker} {store after : σ}

theorem Worker.Step.climbs (h : w.Step B cuts taken store w' after)
    (hw : w.rest.Climbs w.held) : w'.rest.Climbs w'.held := by
  cases h with
  | lock h hi =>
    rw [h] at hw
    exact hw.2.2
  | get h _ => rw [h] at hw; exact hw _
  | set h _ => rw [h] at hw; exact hw _
  | delete h _ => rw [h] at hw; exact hw _
  | count h => rw [h] at hw; exact hw
  | sleep h => rw [h] at hw; exact hw
  | gate h => rw [h] at hw; exact hw
  | panic h => trivial
  | cut h => trivial
  | unlock h hi =>
    show w.rest.Climbs _
    rw [h]
    trivial

/-- A worker takes a stripe that is free, gives its first one back, or has the
same as before. -/
theorem Worker.Step.held_cases (h : w.Step B cuts taken store w' after) :
    (∃ i, i ∉ taken ∧ w'.held = w.held ++ [i]) ∨ (∃ i, w.held = i :: w'.held) ∨
      w'.held = w.held := by
  cases h with
  | lock h hi => exact .inl ⟨_, hi, rfl⟩
  | unlock h hi => exact .inr (.inl ⟨_, hi⟩)
  | _ h => exact .inr (.inr rfl)

end Step

/-- Whether a backend answers every call. -/
structure Backend.Answers {σ : Type} (B : Backend σ) : Prop where
  get : ∀ store key, ∃ answer after, B.get store key answer after
  set : ∀ t store key value ttl, ∃ answer after, B.set t store key value ttl answer after
  delete : ∀ store key, ∃ answer after, B.delete store key answer after

namespace Workshop

variable {σ : Type} {c : CacheConfig} {workers : ℕ} {B : Backend σ} {cuts : Prop}
  {s s' : Workshop σ}

/-- What holds of a workshop between any two steps: its workers climb, and no
two hold the same stripe. -/
structure Orderly (s : Workshop σ) : Prop where
  climbs : ∀ w ∈ s.busy, w.rest.Climbs w.held
  nodup : s.taken.Nodup

theorem taken_eq {before behind : List Worker} {w : Worker} (h : s.busy = before ++ w :: behind) :
    s.taken = before.flatMap (·.held) ++ (w.held ++ behind.flatMap (·.held)) := by
  rw [taken, h, List.flatMap_append, List.flatMap_cons]

/-- The stripes of one worker, apart from those of the others. -/
theorem taken_perm {before behind : List Worker} {w : Worker}
    (h : s.busy = before ++ w :: behind) :
    s.taken.Perm (w.held ++ (before ++ behind).flatMap (·.held)) := by
  rw [taken_eq h, List.flatMap_append, ← List.append_assoc, ← List.append_assoc]
  exact List.perm_append_comm.append_right _

namespace Orderly

theorem start (store : σ) : Orderly ⟨[], [], store⟩ :=
  ⟨fun _ hw => absurd hw List.not_mem_nil, List.nodup_nil⟩

theorem work (h : s.Orderly) {before behind : List Worker} {w w' : Worker} {after : σ}
    (hbusy : s.busy = before ++ w :: behind) (hs : w.Step B cuts s.taken s.store w' after) :
    Orderly { s with busy := before ++ w' :: behind, store := after } where
  climbs := by
    intro v hv
    rcases List.mem_append.1 hv with hv | hv
    · exact h.climbs v (hbusy ▸ List.mem_append_left _ hv)
    rcases List.mem_cons.1 hv with rfl | hv
    · exact hs.climbs (h.climbs w (hbusy ▸ List.mem_append_right _ List.mem_cons_self))
    · exact h.climbs v (hbusy ▸ List.mem_append_right _ (List.mem_cons_of_mem _ hv))
  nodup := by
    have hnodup := (taken_perm hbusy).nodup_iff.1 h.nodup
    refine (taken_perm rfl).nodup_iff.2 ?_
    rcases hs.held_cases with ⟨i, hi, hheld⟩ | ⟨i, hheld⟩ | hheld
    · rw [hheld, List.append_assoc]
      refine List.perm_middle.nodup_iff.2 (List.nodup_cons.2 ⟨?_, hnodup⟩)
      exact fun hmem => hi ((taken_perm hbusy).mem_iff.2 hmem)
    · rw [hheld] at hnodup
      exact (List.nodup_cons.1 hnodup).2
    · rwa [hheld]

theorem step (h : s.Orderly) (hs : s.Step c workers B cuts s') : s'.Orderly := by
  cases hs with
  | submit t => exact ⟨h.climbs, h.nodup⟩
  | @begin t later hwaiting hw =>
    refine ⟨fun v hv => ?_, ?_⟩
    · rcases List.mem_append.1 hv with hv | hv
      · exact h.climbs v hv
      · obtain rfl := List.mem_singleton.1 hv
        exact climbs_job c t
    · simpa [taken] using h.nodup
  | work hbusy hs => exact h.work hbusy hs
  | @finish before behind w hbusy hd hh =>
    refine ⟨fun v hv => h.climbs v ?_, ?_⟩
    · rw [hbusy]
      exact List.mem_append.2 ((List.mem_append.1 hv).imp_right (List.mem_cons_of_mem w))
    · have hnodup := (taken_perm hbusy).nodup_iff.1 h.nodup
      rw [hh] at hnodup
      exact hnodup

end Orderly

theorem Orderly.steps (h : s.Orderly)
    (hs : Relation.ReflTransGen (Step c workers B cuts) s s') : s'.Orderly := by
  induction hs with
  | refl => exact h
  | tail _ hs ih => exact ih.step hs

theorem Reachable.orderly {store : σ} (h : s.Reachable c workers B cuts store) : s.Orderly :=
  (Orderly.start store).steps h

/-! ## Waiting -/

/-- Workers are told apart by their places. -/
def Wants (s : Workshop σ) (a i : ℕ) : Prop := ∃ w, s.busy[a]? = some w ∧ w.wants? = some i

def Holds (s : Workshop σ) (a i : ℕ) : Prop := ∃ w, s.busy[a]? = some w ∧ i ∈ w.held

/-- Whether one worker waits for a stripe that another one holds. -/
def Waits (s : Workshop σ) (a b : ℕ) : Prop := ∃ i, s.Wants a i ∧ s.Holds b i

theorem wants?_eq_some_iff {w : Worker} {i : ℕ} :
    w.wants? = some i ↔ ∃ next, w.rest = .lock i next := by
  rw [Worker.wants?]
  split
  · rename_i h
    simp [h]
  · rename_i h
    refine iff_of_false (by simp) ?_
    rintro ⟨next, hr⟩
    exact h i next hr

namespace Orderly

/-- A worker wants a stripe that exists and is above all that it holds. -/
theorem lt_of_wants (h : s.Orderly) {w : Worker} (hw : w ∈ s.busy) {i : ℕ}
    (hi : w.wants? = some i) : i < stripeCount ∧ ∀ j ∈ w.held, j < i := by
  obtain ⟨next, hrest⟩ := wants?_eq_some_iff.1 hi
  have hclimbs := h.climbs w hw
  rw [hrest] at hclimbs
  exact ⟨hclimbs.1, hclimbs.2.1⟩

/-- No worker waits for itself, also not by way of others. -/
theorem not_cycle (h : s.Orderly) (a : ℕ) : ¬ Relation.TransGen s.Waits a a := by
  refine not_cycle_of_lt ?_ a
  rintro b i j ⟨w, hb, hi⟩ ⟨w', hb', hj⟩
  obtain rfl : w = w' := Option.some.inj (hb.symm.trans hb')
  exact (h.lt_of_wants (List.mem_of_getElem? hb) hi).2 j hj

end Orderly

/-- The worker with the highest stripe waits for nobody. -/
theorem Orderly.exists_not_waiting (h : s.Orderly) (hbusy : s.busy ≠ []) :
    ∃ w ∈ s.busy, ∀ i, w.wants? = some i → i ∉ s.taken := by
  obtain ⟨before, w, behind, hsplit, htop⟩ := exists_foremost (fun w : Worker => w.held) hbusy
  have hw : w ∈ s.busy := hsplit ▸ List.mem_append_right _ List.mem_cons_self
  refine ⟨w, hw, fun i hi hmem => ?_⟩
  obtain ⟨j, hj, hle⟩ := htop i hmem
  exact absurd hle ((h.lt_of_wants hw hi).2 j hj).not_ge

/-! ## The end of a task -/

section Ends
variable {before behind : List Worker} {w : Worker}

/-- A worker whose job has ended gives back its stripes and leaves, without
waiting for anything. -/
theorem leaves (hbusy : s.busy = before ++ w :: behind) (hd : w.rest = .done) :
    Relation.ReflTransGen (Step c workers B cuts) s { s with busy := before ++ behind } := by
  obtain ⟨t, rest, held⟩ := w
  obtain rfl : rest = .done := hd
  induction held generalizing s with
  | nil => exact .single (.finish hbusy rfl rfl)
  | cons i held ih => exact .head (.work hbusy (.unlock rfl rfl)) (ih rfl)

/-- What a worker held is free when it has left. -/
theorem Orderly.free_of_left (h : s.Orderly) (hbusy : s.busy = before ++ w :: behind) {i : ℕ}
    (hi : i ∈ w.held) : i ∉ taken { s with busy := before ++ behind } := by
  have hnodup := (taken_perm hbusy).nodup_iff.1 h.nodup
  exact fun hmem => (List.disjoint_of_nodup_append hnodup) hi hmem

end Ends

/-! ## The end of all tasks -/

section Runs
variable {before behind : List Worker} {w : Worker}

theorem taken_rest (hbusy : s.busy = before ++ w :: behind) (rest : Job) (after : σ) :
    taken { s with busy := before ++ { w with rest := rest } :: behind, store := after } =
      s.taken := by
  rw [taken_eq hbusy, taken_eq rfl]

/-- Whether a workshop comes to be without one of its workers. -/
def Loses (c : CacheConfig) (workers : ℕ) (B : Backend σ) (cuts : Prop) (s : Workshop σ)
    (before behind : List Worker) : Prop :=
  ∃ after, Relation.ReflTransGen (Step c workers B cuts) s
    { s with busy := before ++ behind, store := after }

theorem Loses.head {w' : Worker} {mid : σ} (hbusy : s.busy = before ++ w :: behind)
    (hs : w.Step B cuts s.taken s.store w' mid)
    (h : Loses c workers B cuts { s with busy := before ++ w' :: behind, store := mid } before
      behind) : Loses c workers B cuts s before behind := by
  obtain ⟨after, hruns⟩ := h
  exact ⟨after, .head (.work hbusy hs) hruns⟩

/-- A job that climbs above all that is held comes to its end alone. -/
theorem loses_of_climbs (hB : B.Answers) {job : Job} (hbusy : s.busy = before ++ w :: behind)
    (hrest : w.rest = job) (h : job.Climbs s.taken) : Loses c workers B cuts s before behind := by
  induction job generalizing s w with
  | done => exact ⟨s.store, leaves hbusy hrest⟩
  | panic => exact .head hbusy (.panic hrest) ⟨s.store, leaves rfl rfl⟩
  | lock i next ih =>
    obtain ⟨-, habove, hnext⟩ := h
    have hfree : i ∉ s.taken := fun hi => (habove i hi).false
    refine .head hbusy (.lock hrest hfree) (ih rfl rfl (hnext.mono fun j hj => ⟨j, ?_, le_refl j⟩))
    rw [taken_eq rfl] at hj
    rw [taken_eq hbusy]
    simp only [List.mem_append] at hj ⊢
    tauto
  | get key next ih =>
    obtain ⟨answer, mid, hget⟩ := hB.get s.store key
    exact .head hbusy (.get hrest hget)
      (ih answer rfl rfl ((taken_rest hbusy _ mid).symm ▸ h answer))
  | set key value ttl next ih =>
    obtain ⟨answer, mid, hset⟩ := hB.set w.task s.store key value ttl
    exact .head hbusy (.set hrest hset)
      (ih answer rfl rfl ((taken_rest hbusy _ mid).symm ▸ h answer))
  | delete key next ih =>
    obtain ⟨answer, mid, hdelete⟩ := hB.delete s.store key
    exact .head hbusy (.delete hrest hdelete)
      (ih answer rfl rfl ((taken_rest hbusy _ mid).symm ▸ h answer))
  | count counter ns next ih =>
    exact .head hbusy (.count hrest) (ih rfl rfl ((taken_rest hbusy _ s.store).symm ▸ h))
  | sleep ms next ih =>
    exact .head hbusy (.sleep hrest) (ih rfl rfl ((taken_rest hbusy _ s.store).symm ▸ h))
  | gate name next ih =>
    exact .head hbusy (.gate hrest) (ih rfl rfl ((taken_rest hbusy _ s.store).symm ▸ h))

end Runs

/-- Every task that has begun can come to its end without being cut off. -/
theorem Orderly.drains (h : s.Orderly) (hB : B.Answers) :
    ∃ after, Relation.ReflTransGen (Step c workers B cuts) s ⟨s.waiting, [], after⟩ := by
  induction hn : s.busy.length generalizing s with
  | zero =>
    refine ⟨s.store, ?_⟩
    rw [← List.eq_nil_of_length_eq_zero hn]
  | succ n ih =>
    have hne : s.busy ≠ [] := List.ne_nil_of_length_eq_add_one hn
    obtain ⟨before, w, behind, hbusy, htop⟩ := exists_foremost (fun w : Worker => w.held) hne
    have hclimbs := h.climbs w (hbusy ▸ List.mem_append_right _ List.mem_cons_self)
    obtain ⟨mid, hruns⟩ : Loses c workers B cuts s before behind :=
      loses_of_climbs hB hbusy rfl (hclimbs.mono htop)
    obtain ⟨after, hrest⟩ := ih (h.steps hruns) (by
      rw [hbusy] at hn
      simp only [List.length_append, List.length_cons] at hn ⊢
      omega)
    exact ⟨after, hruns.trans hrest⟩

end Workshop

end FilmCatalog
