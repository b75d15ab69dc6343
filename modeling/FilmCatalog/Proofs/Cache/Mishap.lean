import FilmCatalog.Proofs.Cache.Coverage

/-!
# Index tasks that fail

A call of the backend may fail, which changes nothing that is stored, and a task
may be cut off between two of its calls. Each mishap is told by the task and by
what went wrong. Four kinds of them leave a result without all its listings;
whatever else goes wrong, a worker comes to a stage that it could as well have
come to otherwise, except that it may have a failure to count.

Key definitions: `Mishap`, `Mishap.Orphans`, `Worker.Suffers`, `Workshop.FaultyStep`,
`Workshop.FaultyReachable`, `Errand.At`, `Staffed`.
Key theorems: `Errand.At.step`, `Errand.At.suffers`, `Covered.exchange`,
`Workshop.FaultyReachable.indexed`.
-/

namespace FilmCatalog

/-! ## Mishaps -/

/-- What may go wrong with a task. -/
inductive Mishap where
  /-- It is cut off. -/
  | cut (t : IndexTask)
  /-- It fails to read, set or delete a key. -/
  | get (t : IndexTask) (key : String)
  | set (t : IndexTask) (key : String)
  | delete (t : IndexTask) (key : String)

/-- The mishaps that may leave a result behind which is not listed for all its
posts: one that is kept is not listed, or one that is listed is not deleted
before its listing is. -/
inductive Mishap.Orphans : Mishap → Prop where
  | cut (f : SimilarityFilter) (posts : List Post) : Orphans (.cut (.keep f posts))
  | get {f : SimilarityFilter} {posts : List Post} {id : Int} (h : id ∈ contributors f posts) :
      Orphans (.get (.keep f posts) (indexKey id))
  | set {f : SimilarityFilter} {posts : List Post} {id : Int} (h : id ∈ contributors f posts) :
      Orphans (.set (.keep f posts) (indexKey id))
  | delete (id : Int) (f : SimilarityFilter) :
      Orphans (.delete (.forget id) (Namespace.similar.key (Fingerprint.of f.toJson)))

/-- What becomes of a worker by a mishap. -/
inductive Worker.Suffers (w : Worker) : Mishap → Worker → Prop where
  | cut : Suffers w (.cut w.task) { w with rest := .done }
  | get {key : String} {next : Fetched → Job} (h : w.rest = .get key next) (fault : CacheFault) :
      Suffers w (.get w.task key) { w with rest := next (.error fault) }
  | set {key : String} {value : ByteArray} {ttl : ℕ} {next : Changed → Job}
      (h : w.rest = .set key value ttl next) (fault : CacheFault) :
      Suffers w (.set w.task key) { w with rest := next (.error fault) }
  | delete {key : String} {next : Changed → Job} (h : w.rest = .delete key next)
      (fault : CacheFault) :
      Suffers w (.delete w.task key) { w with rest := next (.error fault) }

namespace Workshop

/-- A step of a workshop in which some mishaps may happen. -/
inductive FaultyStep (c : CacheConfig) (workers : ℕ) (may : Mishap → Prop) (s : Workshop Shelf) :
    Workshop Shelf → Prop where
  | step {s' : Workshop Shelf} (h : s.Step c workers .steady False s') :
      FaultyStep c workers may s s'
  | mishap {before behind : List Worker} {w w' : Worker} {x : Mishap} (hx : may x)
      (h : s.busy = before ++ w :: behind) (hs : w.Suffers x w') :
      FaultyStep c workers may s { s with busy := before ++ w' :: behind }

/-- Mishaps may stay away. -/
theorem faultySteps_of_steps {c : CacheConfig} {workers : ℕ} {may : Mishap → Prop}
    {s s' : Workshop Shelf} (h : Relation.ReflTransGen (Step c workers .steady False) s s') :
    Relation.ReflTransGen (FaultyStep c workers may) s s' :=
  h.lift id fun _ _ => .step

/-- The workshops that come from one without tasks and entries. -/
def FaultyReachable (c : CacheConfig) (workers : ℕ) (may : Mishap → Prop) (s : Workshop Shelf) :
    Prop :=
  Relation.ReflTransGen (FaultyStep c workers may) ⟨[], [], fun _ => none⟩ s

end Workshop

/-! ## Where a worker is after a mishap -/

namespace Errand

/-- Whether a worker is so far, perhaps with a failure that it has yet to count. -/
inductive At (c : CacheConfig) (e : Errand) : Worker → Prop where
  | now : At c e (e.worker c)
  | counting (ns : Namespace) :
      At c e { e.worker c with rest := .count .error ns (e.worker c).rest }

variable {c : CacheConfig} {e : Errand} {w w' : Worker} {taken : List ℕ} {store after : Shelf}

namespace At

theorem held (h : e.At c w) : w.held = e.held := by
  cases h <;> exact e.held_worker c

theorem task (h : e.At c w) : w.task = e.task := by
  cases h <;> exact e.task_worker c

/-- It makes the next step of its errand, or counts a failure. -/
theorem step (h : e.At c w) (hs : w.Step .steady False taken store w' after) :
    (∃ e' : Errand, e'.At c w' ∧ e.Step taken store e' after) ∨ e.At c w' ∧ after = store := by
  cases h with
  | now =>
    obtain ⟨e', rfl, hstep⟩ := step_of_worker hs
    exact .inl ⟨e', .now, hstep⟩
  | counting ns =>
    cases hs with
    | count h =>
      obtain ⟨-, -, rfl⟩ := Job.count.inj h
      exact .inr ⟨.now, rfl⟩
    | cut h => exact h.elim
    | _ h => cases h

end At

/-- Where a worker may stand instead of where it stood: it has the same stripes,
can rely on what it relies on then, and owes what it owed. -/
structure Replaces (store : Shelf) (e e' : Errand) : Prop where
  held : e'.held = e.held
  sound : e'.Sound store
  owes : ∀ id fingerprint, e.Owes id fingerprint → e'.Owes id fingerprint

/-- A purge that is cut off leaves everything as it is. -/
theorem replaces_cut {id : Int} (h : e.task = .forget id) :
    e.Replaces store (.ending (.forget id) e.held) where
  held := rfl
  sound := trivial
  owes _ _ ho := by cases e <;> first | exact ho.elim | cases h

/-- A key that cannot be read costs a purge nothing; a write-back would not list
its result. -/
theorem exists_of_get {key : String} {next : Fetched → Job} (hr : (e.worker c).rest = .get key next)
    (hs : e.Sound store) (hx : ¬(Mishap.get e.task key).Orphans) (fault : CacheFault) :
    ∃ e' : Errand, e'.At c { e.worker c with rest := next (.error fault) } ∧
      e.Replaces store e' := by
  cases e with
  | locking t n =>
    rcases hnext : (stripesOf t.ids)[n]? with _ | i
    · have hn := List.getElem?_eq_none_iff.1 hnext
      rw [worker_locking hn] at hr ⊢
      cases t with
      | keep f posts => cases hr
      | forget id =>
        obtain ⟨rfl, rfl⟩ := Job.get.inj hr
        refine ⟨.ending (.forget id) (stripesOf [id]), .counting _, ?_, trivial, fun _ _ ho => ho⟩
        exact (List.take_of_length_le hn).symm
    · rw [worker_locking_of_next hnext] at hr
      cases hr
  | listing f posts todo =>
    cases todo with
    | nil => cases hr
    | cons id todo =>
      obtain ⟨rfl, -⟩ := Job.get.inj hr
      exact absurd (.get (hs List.mem_cons_self)) hx
  | writing f posts id entry todo => cases hr
  | clearing id listed => cases listed <;> cases hr
  | ending t held => cases hr

/-- A result that cannot be kept is not to be listed; one that is kept and cannot
be listed is lost from the index. -/
theorem exists_of_set {key : String} {value : ByteArray} {ttl : ℕ} {next : Changed → Job}
    (hr : (e.worker c).rest = .set key value ttl next) (hs : e.Sound store)
    (hx : ¬(Mishap.set e.task key).Orphans) (fault : CacheFault) :
    ∃ e' : Errand, e'.At c { e.worker c with rest := next (.error fault) } ∧
      e.Replaces store e' := by
  cases e with
  | locking t n =>
    rcases hnext : (stripesOf t.ids)[n]? with _ | i
    · have hn := List.getElem?_eq_none_iff.1 hnext
      rw [worker_locking hn] at hr ⊢
      cases t with
      | keep f posts =>
        obtain ⟨rfl, rfl, rfl, rfl⟩ := Job.set.inj hr
        refine ⟨.ending (.keep f posts) (stripesOf (contributors f posts)), .counting _, ?_,
          trivial, fun _ _ ho => ho⟩
        exact (List.take_of_length_le hn).symm
      | forget id => cases hr
    · rw [worker_locking_of_next hnext] at hr
      cases hr
  | listing f posts todo => cases todo <;> cases hr
  | writing f posts id entry todo =>
    obtain ⟨rfl, -⟩ := Job.set.inj hr
    exact absurd (.set (hs.1 List.mem_cons_self)) hx
  | clearing id listed => cases listed <;> cases hr
  | ending t held => cases hr

/-- An index entry that cannot be deleted still lists what it listed; a result
that cannot be deleted must not lose its listing. -/
theorem exists_of_delete {key : String} {next : Changed → Job}
    (hr : (e.worker c).rest = .delete key next) (hs : e.Sound store)
    (hres : ∀ fingerprint found, store (Namespace.similar.key fingerprint) = some found →
      ∃ f posts, found.IsResult fingerprint f posts)
    (hx : ¬(Mishap.delete e.task key).Orphans) (fault : CacheFault) :
    ∃ e' : Errand, e'.At c { e.worker c with rest := next (.error fault) } ∧
      e.Replaces store e' := by
  cases e with
  | locking t n =>
    rcases hnext : (stripesOf t.ids)[n]? with _ | i
    · rw [worker_locking (List.getElem?_eq_none_iff.1 hnext)] at hr
      cases t <;> cases hr
    · rw [worker_locking_of_next hnext] at hr
      cases hr
  | listing f posts todo => cases todo <;> cases hr
  | writing f posts id entry todo => cases hr
  | clearing id listed =>
    cases listed with
    | nil =>
      obtain ⟨rfl, rfl⟩ := Job.delete.inj hr
      exact ⟨.ending (.forget id) (stripesOf [id]), .counting _, rfl, trivial, fun _ _ ho => ho⟩
    | cons fingerprint listed =>
      obtain ⟨rfl, rfl⟩ := Job.delete.inj hr
      refine ⟨.clearing id listed, .counting _, rfl, ?_, fun _ _ ho => ho⟩
      -- under a key that is not the fingerprint of a filter there is no result
      intro other hother
      refine (List.mem_cons.1 (hs other hother)).resolve_left ?_
      rintro rfl
      obtain ⟨found, hf, -⟩ := hother
      obtain ⟨f, posts, -, rfl⟩ := hres _ _ hf
      exact hx (.delete id f)
  | ending t held => cases hr

/-- A mishap that orphans nothing leaves a worker where it may stand. -/
theorem At.suffers {x : Mishap} (h : e.At c w) (hw : w.Suffers x w') (hs : e.Sound store)
    (hres : ∀ fingerprint found, store (Namespace.similar.key fingerprint) = some found →
      ∃ f posts, found.IsResult fingerprint f posts)
    (hx : ¬x.Orphans) : ∃ e' : Errand, e'.At c w' ∧ e.Replaces store e' := by
  cases hw with
  | cut =>
    rw [h.task] at hx
    cases ht : e.task with
    | keep f posts => exact absurd (ht ▸ .cut f posts) hx
    | forget id =>
      have hend : { w with rest := .done } = (ending (.forget id) e.held).worker c := by
        rw [Errand.worker, ← ht, ← h.task, ← h.held]
      exact ⟨.ending (.forget id) e.held, hend ▸ .now, replaces_cut ht⟩
  | get hr fault =>
    rw [h.task] at hx
    cases h with
    | now => exact exists_of_get hr hs hx fault
    | counting ns => cases hr
  | set hr fault =>
    rw [h.task] at hx
    cases h with
    | now => exact exists_of_set hr hs hx fault
    | counting ns => cases hr
  | delete hr fault =>
    rw [h.task] at hx
    cases h with
    | now => exact exists_of_delete hr hs hres hx fault
    | counting ns => cases hr

end Errand

/-! ## The invariant -/

/-- A worker may stand elsewhere if it owes no less there. -/
theorem Covered.exchange {c : CacheConfig} {before behind : List Errand} {e e' : Errand}
    {s : Workshop Shelf} (hc : Covered c (before ++ e :: behind) s)
    (h : e.Replaces s.store e') :
    Covered c (before ++ e' :: behind)
      { s with busy := (before ++ e' :: behind).map (·.worker c) } where
  busy := rfl
  apart := by
    obtain ⟨hapart, hrest⟩ :=
      List.pairwise_cons.1 ((List.pairwise_middle List.Disjoint.symm).1 hc.apart)
    refine (List.pairwise_middle List.Disjoint.symm).2 (List.pairwise_cons.2 ⟨?_, hrest⟩)
    exact h.held.symm ▸ hapart
  sound o ho := by
    rcases mem_middle.1 ho with rfl | hother
    · exact h.sound
    · exact hc.sound o (mem_middle.2 (.inr hother))
  results := hc.results
  covered id fingerprint hr := by
    refine (hc.covered id fingerprint hr).imp_right fun ⟨o, ho, howes⟩ => ?_
    rcases mem_middle.1 ho with rfl | hother
    · exact ⟨e', mem_middle.2 (.inl rfl), h.owes _ _ howes⟩
    · exact ⟨o, mem_middle.2 (.inr hother), howes⟩

/-- The workers with their errands, as if none had a failure to count. -/
structure Staffed (c : CacheConfig) (crew : List (Errand × Worker)) (s : Workshop Shelf) :
    Prop where
  busy : s.busy = crew.map Prod.snd
  places : ∀ x ∈ crew, x.1.At c x.2
  covered : Covered c (crew.map Prod.fst) { s with busy := crew.map fun x => x.1.worker c }

namespace Staffed

variable {c : CacheConfig} {crew before behind : List (Errand × Worker)} {e e' : Errand}
  {w w' : Worker} {s s' : Workshop Shelf} {after : Shelf}

theorem empty : Staffed c [] ⟨[], [], fun _ => none⟩ :=
  ⟨rfl, by simp, .empty⟩

/-- The stripes that are taken are those of the errands. -/
theorem taken_eq (h : Staffed c crew s) :
    Workshop.taken { s with busy := crew.map fun x => x.1.worker c } = s.taken := by
  rw [Workshop.taken, Workshop.taken, h.busy, List.flatMap_map, List.flatMap_map]
  refine List.flatMap_congr fun x hx => ?_
  rw [Errand.held_worker, (h.places x hx).held]

/-- A worker comes to another place while the others stay where they are. -/
theorem places_of_middle (h : Staffed c (before ++ (e, w) :: behind) s) (he : e'.At c w') :
    ∀ x ∈ before ++ (e', w') :: behind, x.1.At c x.2 := by
  intro x hx
  rcases mem_middle.1 hx with rfl | hother
  · exact he
  · exact h.places x (mem_middle.2 (.inr hother))

theorem begins (h : Staffed c crew s) (t : IndexTask) (later : List IndexTask) :
    Staffed c (crew ++ [(.locking t 0, ⟨t, t.job c, []⟩)])
      { s with waiting := later, busy := s.busy ++ [⟨t, t.job c, []⟩] } where
  busy := by simp [h.busy]
  places x hx := by
    rcases List.mem_append.1 hx with hx | hx
    · exact h.places x hx
    · rw [List.mem_singleton.1 hx, IndexTask.job_eq]
      exact .now
  covered := by
    have hc := (h.covered.waiting later).begins t
    simpa [Errand.worker, IndexTask.job_eq] using hc

theorem works (h : Staffed c (before ++ (e, w) :: behind) s)
    (hs : w.Step .steady False s.taken s.store w' after) :
    ∃ e', Staffed c (before ++ (e', w') :: behind)
      { s with busy := (before ++ (e', w') :: behind).map Prod.snd, store := after } := by
  have hplace : e.At c w := h.places (e, w) (by simp)
  rcases hplace.step hs with ⟨e', hat, hstep⟩ | ⟨hat, rfl⟩
  · rw [← h.taken_eq] at hstep
    have hc := h.covered
    rw [List.map_append, List.map_cons] at hc
    have hc' := hc.works hstep
    refine ⟨e', rfl, h.places_of_middle hat, ?_⟩
    simpa [Function.comp_def] using hc'
  · refine ⟨e, rfl, h.places_of_middle hat, ?_⟩
    simpa using h.covered

theorem suffers {x : Mishap} (h : Staffed c (before ++ (e, w) :: behind) s)
    (hs : w.Suffers x w') (hx : ¬x.Orphans) :
    ∃ e', Staffed c (before ++ (e', w') :: behind)
      { s with busy := (before ++ (e', w') :: behind).map Prod.snd } := by
  have hmem : (e, w) ∈ before ++ (e, w) :: behind := by simp
  have hc := h.covered
  have hsound : e.Sound s.store := hc.sound e (List.mem_map_of_mem hmem)
  obtain ⟨e', hat, hreplaces⟩ := (h.places _ hmem).suffers hs hsound hc.results hx
  rw [List.map_append, List.map_cons] at hc
  have hc' := hc.exchange hreplaces
  refine ⟨e', rfl, h.places_of_middle hat, ?_⟩
  simpa [Function.comp_def] using hc'

theorem finishes (h : Staffed c (before ++ (e, w) :: behind) s) (hh : w.held = []) :
    Staffed c (before ++ behind) { s with busy := (before ++ behind).map Prod.snd } where
  busy := rfl
  places x hx := h.places x (mem_middle.2 (.inr hx))
  covered := by
    have hat : e.At c w := h.places (e, w) (by simp)
    have hheld : e.held = [] := hat.held.symm.trans hh
    have hc := h.covered
    rw [List.map_append, List.map_cons] at hc
    simpa [Function.comp_def] using hc.finishes hheld

/-- The invariant is kept by every step and by every mishap that orphans nothing. -/
theorem step {workers : ℕ} {may : Mishap → Prop} (hmay : ∀ x, may x → ¬x.Orphans)
    (h : Staffed c crew s) (hs : s.FaultyStep c workers may s') :
    ∃ crew', Staffed c crew' s' := by
  cases hs with
  | step hs =>
    cases hs with
    | submit t => exact ⟨crew, h.busy, h.places, h.covered.waiting _⟩
    | @begin t later _ _ => exact ⟨_, h.begins t later⟩
    | @work before behind w w' after hb hs =>
      rw [h.busy] at hb
      obtain ⟨before, ⟨e, w⟩, behind, rfl, rfl, rfl, rfl⟩ := exists_middle_of_map hb
      obtain ⟨e', h'⟩ := h.works hs
      exact ⟨_, by simpa using h'⟩
    | @finish before behind w hb _ hh =>
      rw [h.busy] at hb
      obtain ⟨before, ⟨e, w⟩, behind, rfl, rfl, rfl, rfl⟩ := exists_middle_of_map hb
      exact ⟨_, by simpa using h.finishes hh⟩
  | @mishap before behind w w' x hx hb hs =>
    rw [h.busy] at hb
    obtain ⟨before, ⟨e, w⟩, behind, rfl, rfl, rfl, rfl⟩ := exists_middle_of_map hb
    obtain ⟨e', h'⟩ := h.suffers hs (hmay x hx)
    exact ⟨_, by simpa using h'⟩

theorem of_reachable {workers : ℕ} {may : Mishap → Prop} (hmay : ∀ x, may x → ¬x.Orphans)
    (h : s.FaultyReachable c workers may) : ∃ crew, Staffed c crew s := by
  induction h with
  | refl => exact ⟨[], empty⟩
  | tail _ hs ih =>
    obtain ⟨crew, hstaffed⟩ := ih
    exact hstaffed.step hmay hs

end Staffed

/-- While no mishap orphans a result, all results are listed for their posts
whenever nobody is at work. -/
theorem Workshop.FaultyReachable.indexed {c : CacheConfig} {workers : ℕ} {may : Mishap → Prop}
    {s : Workshop Shelf} (hmay : ∀ x, may x → ¬x.Orphans) (h : s.FaultyReachable c workers may)
    (hidle : s.busy = []) : s.store.Indexed := by
  obtain ⟨crew, hstaffed⟩ := Staffed.of_reachable hmay h
  obtain rfl : crew = [] := List.map_eq_nil_iff.1 (hstaffed.busy.symm.trans hidle)
  exact hstaffed.covered.indexed

end FilmCatalog
