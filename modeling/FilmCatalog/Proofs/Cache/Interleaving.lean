import FilmCatalog.Cache.Similar
import Mathlib

/-!
# Interleaved index tasks

The tasks of a similarity cache run on some workers over one backend. Between
any two steps another worker may go on: a step takes one stripe that nobody
holds, makes one call of the backend, or gives one stripe back after the end.
Tasks are submitted at any time and begin in the order in which they came.

What a backend answers is left open (`Backend`). The steady one answers every
call, forgets nothing, and is written by nobody else; beside each value it
keeps which task wrote it.

Key definitions: `IndexTask`, `SimilaritySource.Indexes`, `Worker`, `Backend`, `Worker.Step`,
`Workshop`, `Workshop.Step`, `Workshop.Reachable`, `Backend.steady`.
Key theorems: `indexes`, `Worker.Step.get_iff`.
-/

namespace FilmCatalog

/-- The tasks that a similarity cache submits. -/
inductive IndexTask where
  /-- Keeps what was found for a filter. -/
  | keep (f : SimilarityFilter) (posts : List Post)
  | forget (id : Int)

namespace IndexTask

/-- The posts that a task is about, whose stripes it locks. -/
def ids : IndexTask → List Int
  | .keep f posts => contributors f posts
  | .forget id => [id]

/-- The job of a task. -/
def job (c : CacheConfig) : IndexTask → Job
  | .keep f posts =>
    Job.keepResult (Fingerprint.of f.toJson) (Json.ofList Post.toJson posts).encoded
      (contributors f posts) c.similarTtl c.similarIdsTtl
  | .forget id => Job.purge id

/-- A task as it is submitted. -/
def task (c : CacheConfig) (t : IndexTask) : Task :=
  match t with
  | .keep f _ => ⟨.similar, Namespace.similar.key (Fingerprint.of f.toJson), t.job c⟩
  | .forget id => ⟨.similarIds, indexKey id, t.job c⟩

end IndexTask

section Submitted
variable {m : Type → Type} [Monad m]

/-- Whether a similarity cache submits the index tasks of what it found and of what it
was told to forget, and nothing else. -/
structure SimilaritySource.Indexes (inner : SimilaritySource m) (layer : CacheLayer m)
    (c : CacheConfig) : Prop where
  similar : ∀ f, (inner.cached layer c).findSimilar f = (do
    let key := Namespace.similar.key (Fingerprint.of f.toJson)
    match ← layer.lookup .similar key (Json.Decoder.list Post.decode) with
    | some posts => pure posts
    | none =>
      let posts ← inner.findSimilar f
      discard (layer.submit ((IndexTask.keep f posts).task c))
      pure posts)
  forget : ∀ id, (inner.cached layer c).forget id = (do
    discard (layer.submit ((IndexTask.forget id).task c))
    inner.forget id)

theorem indexes (inner : SimilaritySource m) (layer : CacheLayer m) (c : CacheConfig) :
    inner.Indexes layer c :=
  ⟨fun _ => rfl, fun _ => rfl⟩

end Submitted

/-! ## Steps -/

/-- A worker with a task: what is left to do, and its stripes in the order in
which it got them. -/
structure Worker where
  task : IndexTask
  rest : Job
  held : List Nat

/-- What a backend answers to each call, and what becomes of it. A call that
sets a value tells which task makes it. -/
structure Backend (σ : Type) where
  get : σ → String → Fetched → σ → Prop
  set : IndexTask → σ → String → ByteArray → ℕ → Changed → σ → Prop
  delete : σ → String → Changed → σ → Prop

/-- One step of a worker while the stripes of `taken` are held. It may be cut
off between two of its steps if `cuts`. -/
inductive Worker.Step {σ : Type} (B : Backend σ) (cuts : Prop) (taken : List Nat) (w : Worker)
    (store : σ) : Worker → σ → Prop where
  | lock {i : ℕ} {next : Job} (h : w.rest = .lock i next) (hi : i ∉ taken) :
      Step B cuts taken w store { w with rest := next, held := w.held ++ [i] } store
  | get {key : String} {next : Fetched → Job} {answer : Fetched} {after : σ}
      (h : w.rest = .get key next) (hb : B.get store key answer after) :
      Step B cuts taken w store { w with rest := next answer } after
  | set {key : String} {value : ByteArray} {ttl : ℕ} {next : Changed → Job} {answer : Changed}
      {after : σ} (h : w.rest = .set key value ttl next)
      (hb : B.set w.task store key value ttl answer after) :
      Step B cuts taken w store { w with rest := next answer } after
  | delete {key : String} {next : Changed → Job} {answer : Changed} {after : σ}
      (h : w.rest = .delete key next) (hb : B.delete store key answer after) :
      Step B cuts taken w store { w with rest := next answer } after
  | count {c : Counter} {ns : Namespace} {next : Job} (h : w.rest = .count c ns next) :
      Step B cuts taken w store { w with rest := next } store
  | sleep {ms : ℕ} {next : Job} (h : w.rest = .sleep ms next) :
      Step B cuts taken w store { w with rest := next } store
  | gate {name : String} {next : Job} (h : w.rest = .gate name next) :
      Step B cuts taken w store { w with rest := next } store
  | panic (h : w.rest = .panic) : Step B cuts taken w store { w with rest := .done } store
  | cut (h : cuts) : Step B cuts taken w store { w with rest := .done } store
  | unlock {i : ℕ} {held : List ℕ} (h : w.rest = .done) (hi : w.held = i :: held) :
      Step B cuts taken w store { w with held := held } store

/-- Tasks that wait, the first to begin first, the workers that have one, and a backend. -/
structure Workshop (σ : Type) where
  waiting : List IndexTask
  busy : List Worker
  store : σ

namespace Workshop

variable {σ : Type}

/-- The stripes that somebody holds. -/
def taken (s : Workshop σ) : List Nat := s.busy.flatMap (·.held)

/-- One step of a workshop with some number of workers. -/
inductive Step (c : CacheConfig) (workers : ℕ) (B : Backend σ) (cuts : Prop) (s : Workshop σ) :
    Workshop σ → Prop where
  | submit (t : IndexTask) : Step c workers B cuts s { s with waiting := s.waiting ++ [t] }
  | begin {t : IndexTask} {later : List IndexTask} (h : s.waiting = t :: later)
      (hw : s.busy.length < workers) :
      Step c workers B cuts s
        { s with waiting := later, busy := s.busy ++ [⟨t, t.job c, []⟩] }
  | work {before behind : List Worker} {w w' : Worker} {after : σ}
      (h : s.busy = before ++ w :: behind) (hs : w.Step B cuts s.taken s.store w' after) :
      Step c workers B cuts s { s with busy := before ++ w' :: behind, store := after }
  | finish {before behind : List Worker} {w : Worker} (h : s.busy = before ++ w :: behind)
      (hd : w.rest = .done) (hh : w.held = []) :
      Step c workers B cuts s { s with busy := before ++ behind }

/-- The workshops that come from one without tasks. -/
def Reachable (c : CacheConfig) (workers : ℕ) (B : Backend σ) (cuts : Prop) (store : σ)
    (s : Workshop σ) : Prop :=
  Relation.ReflTransGen (Step c workers B cuts) ⟨[], [], store⟩ s

end Workshop

/-- Who is in a line is at the marked place or in the rest. -/
theorem mem_middle {α : Type} {before behind : List α} {x y : α} :
    x ∈ before ++ y :: behind ↔ x = y ∨ x ∈ before ++ behind := by
  rw [List.perm_middle.mem_iff, List.mem_cons]

/-- Somebody stands where an image of somebody stands. -/
theorem exists_middle_of_map {α β : Type} {f : α → β} {xs : List α} {before behind : List β}
    {y : β} (h : xs.map f = before ++ y :: behind) :
    ∃ front x back, xs = front ++ x :: back ∧ front.map f = before ∧ f x = y ∧
      back.map f = behind := by
  obtain ⟨front, rest, rfl, rfl, hrest⟩ := List.map_eq_append_iff.1 h
  obtain ⟨x, back, rfl, rfl, rfl⟩ := List.map_eq_cons_iff.1 hrest
  exact ⟨front, x, back, rfl, rfl, rfl, rfl⟩

/-! ## The steady backend -/

/-- A stored value and the task that wrote it. -/
structure Kept where
  value : ByteArray
  writer : IndexTask

/-- Entries by their keys. -/
abbrev Shelf := String → Option Kept

/-- The backend that answers every call and keeps every entry until it is
overwritten or deleted. -/
def Backend.steady : Backend Shelf where
  get store key answer after := answer = .ok ((store key).map (·.value)) ∧ after = store
  set writer store key value _ answer after :=
    answer = .ok () ∧ after = Function.update store key (some ⟨value, writer⟩)
  delete store key answer after := answer = .ok () ∧ after = Function.update store key none

namespace Worker.Step

variable {taken : List Nat} {w w' : Worker} {store after : Shelf}

/-- What a worker does before a lock. -/
theorem lock_iff {i : ℕ} {next : Job} (hr : w.rest = .lock i next) :
    w.Step .steady False taken store w' after ↔
      i ∉ taken ∧ w' = { w with rest := next, held := w.held ++ [i] } ∧ after = store := by
  constructor
  · intro h
    cases h with
    | lock h hi =>
      rw [hr, Job.lock.injEq] at h
      obtain ⟨rfl, rfl⟩ := h
      exact ⟨hi, rfl, rfl⟩
    | cut h => exact h.elim
    | _ h => rw [hr] at h; cases h
  · rintro ⟨hi, rfl, rfl⟩
    exact .lock hr hi

theorem get_iff {key : String} {next : Fetched → Job} (hr : w.rest = .get key next) :
    w.Step .steady False taken store w' after ↔
      w' = { w with rest := next (.ok ((store key).map (·.value))) } ∧ after = store := by
  constructor
  · intro h
    cases h with
    | get h hb =>
      rw [hr, Job.get.injEq] at h
      obtain ⟨rfl, rfl⟩ := h
      obtain ⟨rfl, rfl⟩ := hb
      exact ⟨rfl, rfl⟩
    | cut h => exact h.elim
    | _ h => rw [hr] at h; cases h
  · rintro ⟨rfl, rfl⟩
    exact .get hr ⟨rfl, rfl⟩

theorem set_iff {key : String} {value : ByteArray} {ttl : ℕ} {next : Changed → Job}
    (hr : w.rest = .set key value ttl next) :
    w.Step .steady False taken store w' after ↔ w' = { w with rest := next (.ok ()) } ∧
      after = Function.update store key (some ⟨value, w.task⟩) := by
  constructor
  · intro h
    cases h with
    | set h hb =>
      rw [hr, Job.set.injEq] at h
      obtain ⟨rfl, rfl, rfl, rfl⟩ := h
      obtain ⟨rfl, rfl⟩ := hb
      exact ⟨rfl, rfl⟩
    | cut h => exact h.elim
    | _ h => rw [hr] at h; cases h
  · rintro ⟨rfl, rfl⟩
    exact .set hr ⟨rfl, rfl⟩

theorem delete_iff {key : String} {next : Changed → Job} (hr : w.rest = .delete key next) :
    w.Step .steady False taken store w' after ↔
      w' = { w with rest := next (.ok ()) } ∧ after = Function.update store key none := by
  constructor
  · intro h
    cases h with
    | delete h hb =>
      rw [hr, Job.delete.injEq] at h
      obtain ⟨rfl, rfl⟩ := h
      obtain ⟨rfl, rfl⟩ := hb
      exact ⟨rfl, rfl⟩
    | cut h => exact h.elim
    | _ h => rw [hr] at h; cases h
  · rintro ⟨rfl, rfl⟩
    exact .delete hr ⟨rfl, rfl⟩

/-- What a worker does after the end of its job. -/
theorem done_iff (hr : w.rest = .done) :
    w.Step .steady False taken store w' after ↔
      ∃ i held, w.held = i :: held ∧ w' = { w with held := held } ∧ after = store := by
  constructor
  · intro h
    cases h with
    | unlock h hi => exact ⟨_, _, hi, rfl, rfl⟩
    | cut h => exact h.elim
    | _ h => rw [hr] at h; cases h
  · rintro ⟨i, held, hi, rfl, rfl⟩
    exact .unlock hr hi

end Worker.Step
end FilmCatalog
