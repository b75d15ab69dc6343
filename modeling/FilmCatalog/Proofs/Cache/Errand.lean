import FilmCatalog.Proofs.Cache.Entry
import FilmCatalog.Proofs.Cache.Interleaving
import FilmCatalog.Proofs.Cache.Keys
import FilmCatalog.Proofs.Filter.Constructed

/-!
# The stages of an index task

While nothing fails, a worker first takes the stripes of its posts, one after
the other. Then it either keeps a result and lists it for each post, or looks
what is listed for one post and clears it. Errands say how far it is, and how
one call takes it on.

Key definitions: `Shelf.listed`, `Errand`, `Errand.worker`, `Errand.Step`.
Key theorems: `mem_contributors`, `Errand.step_of_worker`, `Errand.Step.worker`.
-/

namespace FilmCatalog

/-! ## Stripes and posts -/

theorem stripe_lt (id : Int) : stripe id < stripeCount := by
  unfold stripe stripeCount
  omega

/-- The stripe of each post is among the stripes of the posts. -/
theorem stripe_mem_stripesOf {id : Int} {ids : List Int} (h : id ∈ ids) :
    stripe id ∈ stripesOf ids := by
  unfold stripesOf
  rw [List.mem_filter, List.mem_range]
  exact ⟨stripe_lt id, List.any_eq_true.2 ⟨id, h, beq_self_eq_true _⟩⟩

theorem mem_contributors {f : SimilarityFilter} {posts : List Post} {id : Int} :
    id ∈ contributors f posts ↔ id = f.id ∨ ∃ p ∈ posts, p.id = id := by
  rw [contributors, mem_idSet, List.mem_append, List.mem_map, List.mem_singleton, or_comm]

/-! ## The parts of a job -/

/-- Lists a fingerprint for each of some posts. -/
def Job.listAll (c : CacheConfig) (fingerprint : String) (ids : List Int) : Job :=
  ids.foldr (fun id next => Job.remember id fingerprint c.similarIdsTtl next) .done

/-- Deletes the results that are listed for a post, then its index entry. -/
def Job.clearAll (id : Int) (listed : List String) : Job :=
  listed.foldr
    (fun fingerprint next => Job.remove .similar (Namespace.similar.key fingerprint) next)
    (Job.remove .similarIds (indexKey id) .done)

/-- What a task does after it has its stripes. -/
def IndexTask.body (c : CacheConfig) : IndexTask → Job
  | .keep f posts =>
    .set (Namespace.similar.key (Fingerprint.of f.toJson)) (Json.ofList Post.toJson posts).encoded
      c.similarTtl fun
        | .error _ => .count .error .similar .done
        | .ok _ => Job.listAll c (Fingerprint.of f.toJson) (contributors f posts)
  | .forget id =>
    .get (indexKey id) fun
      | .error _ => .count .error .similarIds .done
      | .ok none => .done
      | .ok (some entry) => Job.clearAll id (IndexEntry.read entry)

theorem IndexTask.job_eq (c : CacheConfig) (t : IndexTask) :
    t.job c = Job.lockAll (stripesOf t.ids) (t.body c) := by
  cases t <;> rfl

/-! ## Index entries -/

/-- The index entry of a post, empty if there is none. -/
def Shelf.entry (store : Shelf) (id : Int) : ByteArray :=
  ((store (indexKey id)).map (·.value)).getD .empty

/-- The fingerprints that the index entry of a post lists. -/
def Shelf.listed (store : Shelf) (id : Int) : List String := IndexEntry.read (store.entry id)

theorem isName_fingerprint (v : Json) : IndexEntry.IsName (Fingerprint.of v) :=
  ⟨Fingerprint.of_ne_empty v, Fingerprint.separator_not_mem v⟩

/-! ## Errands -/

/-- How far a worker is with its task. -/
inductive Errand where
  /-- It has the first `n` of its stripes. -/
  | locking (t : IndexTask) (n : ℕ)
  /-- The result is kept and is to be listed for some more posts. -/
  | listing (f : SimilarityFilter) (posts : List Post) (todo : List Int)
  /-- An entry is to be written for a post, and then others for some more. -/
  | writing (f : SimilarityFilter) (posts : List Post) (id : Int) (entry : ByteArray)
      (todo : List Int)
  /-- Some results are to be deleted, and then the index entry. -/
  | clearing (id : Int) (listed : List String)
  | ending (t : IndexTask) (held : List ℕ)

namespace Errand

/-- The worker that is so far. -/
def worker (c : CacheConfig) : Errand → Worker
  | locking t n =>
    ⟨t, Job.lockAll ((stripesOf t.ids).drop n) (t.body c), (stripesOf t.ids).take n⟩
  | listing f posts todo =>
    ⟨.keep f posts, Job.listAll c (Fingerprint.of f.toJson) todo,
      stripesOf (contributors f posts)⟩
  | writing f posts id entry todo =>
    ⟨.keep f posts, .set (indexKey id) entry c.similarIdsTtl fun
        | .ok _ => Job.listAll c (Fingerprint.of f.toJson) todo
        | .error _ => .count .error .similarIds (Job.listAll c (Fingerprint.of f.toJson) todo),
      stripesOf (contributors f posts)⟩
  | clearing id listed => ⟨.forget id, Job.clearAll id listed, stripesOf [id]⟩
  | ending t held => ⟨t, .done, held⟩

/-- The stripes of the worker. -/
def held : Errand → List ℕ
  | locking t n => (stripesOf t.ids).take n
  | listing f posts _ => stripesOf (contributors f posts)
  | writing f posts _ _ _ => stripesOf (contributors f posts)
  | clearing id _ => stripesOf [id]
  | ending _ held => held

theorem held_worker (c : CacheConfig) (e : Errand) : (e.worker c).held = e.held := by
  cases e <;> rfl

/-- The task of a worker. -/
def task : Errand → IndexTask
  | locking t _ => t
  | listing f posts _ => .keep f posts
  | writing f posts _ _ _ => .keep f posts
  | clearing id _ => .forget id
  | ending t _ => t

theorem task_worker (c : CacheConfig) (e : Errand) : (e.worker c).task = e.task := by
  cases e <;> rfl

/-- What the next call does on the steady backend while some stripes are taken. -/
inductive Step (taken : List ℕ) (store : Shelf) : Errand → Errand → Shelf → Prop where
  | lock {t : IndexTask} {n i : ℕ} (h : (stripesOf t.ids)[n]? = some i) (hi : i ∉ taken) :
      Step taken store (locking t n) (locking t (n + 1)) store
  | keep {f : SimilarityFilter} {posts : List Post} {n : ℕ}
      (h : (stripesOf (contributors f posts)).length ≤ n) :
      Step taken store (locking (.keep f posts) n) (listing f posts (contributors f posts))
        (Function.update store (Namespace.similar.key (Fingerprint.of f.toJson))
          (some ⟨(Json.ofList Post.toJson posts).encoded, .keep f posts⟩))
  | look {id : Int} {n : ℕ} {found : Kept} (h : (stripesOf [id]).length ≤ n)
      (hf : store (indexKey id) = some found) :
      Step taken store (locking (.forget id) n) (clearing id (IndexEntry.read found.value)) store
  | miss {id : Int} {n : ℕ} (h : (stripesOf [id]).length ≤ n) (hf : store (indexKey id) = none) :
      Step taken store (locking (.forget id) n) (ending (.forget id) (stripesOf [id])) store
  | skip {f : SimilarityFilter} {posts : List Post} {id : Int} {todo : List Int}
      (ha : IndexEntry.adding? (store.entry id) (Fingerprint.of f.toJson) = none) :
      Step taken store (listing f posts (id :: todo)) (listing f posts todo) store
  | add {f : SimilarityFilter} {posts : List Post} {id : Int} {todo : List Int} {entry : ByteArray}
      (ha : IndexEntry.adding? (store.entry id) (Fingerprint.of f.toJson) = some entry) :
      Step taken store (listing f posts (id :: todo)) (writing f posts id entry todo) store
  | write {f : SimilarityFilter} {posts : List Post} {id : Int} {entry : ByteArray}
      {todo : List Int} :
      Step taken store (writing f posts id entry todo) (listing f posts todo)
        (Function.update store (indexKey id) (some ⟨entry, .keep f posts⟩))
  | clear {id : Int} {fingerprint : String} {listed : List String} :
      Step taken store (clearing id (fingerprint :: listed)) (clearing id listed)
        (Function.update store (Namespace.similar.key fingerprint) none)
  | delete {id : Int} :
      Step taken store (clearing id []) (ending (.forget id) (stripesOf [id]))
        (Function.update store (indexKey id) none)
  | listed {f : SimilarityFilter} {posts : List Post} {i : ℕ} {held : List ℕ}
      (h : stripesOf (contributors f posts) = i :: held) :
      Step taken store (listing f posts []) (ending (.keep f posts) held) store
  | unlock {t : IndexTask} {i : ℕ} {held : List ℕ} :
      Step taken store (ending t (i :: held)) (ending t held) store

/-! ## Workers and errands -/

variable {c : CacheConfig} {taken : List ℕ} {store after : Shelf} {w' : Worker}

theorem Step.task_eq {e e' : Errand} (h : e.Step taken store e' after) : e'.task = e.task := by
  cases h <;> rfl

theorem worker_locking {t : IndexTask} {n : ℕ} (h : (stripesOf t.ids).length ≤ n) :
    (locking t n).worker c = ⟨t, t.body c, stripesOf t.ids⟩ := by
  rw [worker, List.drop_eq_nil_of_le h, List.take_of_length_le h, Job.lockAll]

theorem worker_locking_of_next {t : IndexTask} {n i : ℕ} (h : (stripesOf t.ids)[n]? = some i) :
    (locking t n).worker c = ⟨t, .lock i (Job.lockAll ((stripesOf t.ids).drop (n + 1)) (t.body c)),
      (stripesOf t.ids).take n⟩ := by
  obtain ⟨hn, rfl⟩ := List.getElem?_eq_some_iff.1 h
  rw [worker, List.drop_eq_getElem_cons hn, Job.lockAll]

theorem worker_locking_succ {t : IndexTask} {n i : ℕ} (h : (stripesOf t.ids)[n]? = some i) :
    (locking t (n + 1)).worker c = ⟨t, Job.lockAll ((stripesOf t.ids).drop (n + 1)) (t.body c),
      (stripesOf t.ids).take n ++ [i]⟩ := by
  rw [worker, List.take_add_one, h, Option.toList_some]

/-- What a worker does before it lists a fingerprint. -/
theorem remember_iff {w : Worker} {id : Int} {fingerprint : String} {ttl : ℕ} {next : Job}
    (hr : w.rest = Job.remember id fingerprint ttl next) :
    w.Step .steady False taken store w' after ↔
      w' = { w with rest := match IndexEntry.adding? (store.entry id) fingerprint with
        | none => next
        | some entry => .set (indexKey id) entry ttl fun
          | .ok _ => next
          | .error _ => .count .error .similarIds next } ∧ after = store :=
  Worker.Step.get_iff hr

theorem step_locking {t : IndexTask} {n : ℕ}
    (h : ((locking t n).worker c).Step .steady False taken store w' after) :
    ∃ e : Errand, w' = e.worker c ∧ (locking t n).Step taken store e after := by
  rcases hnext : (stripesOf t.ids)[n]? with _ | i
  · have hn := List.getElem?_eq_none_iff.1 hnext
    rw [worker_locking hn] at h
    cases t with
    | keep f posts =>
      obtain ⟨rfl, rfl⟩ := (Worker.Step.set_iff rfl).1 h
      exact ⟨_, rfl, .keep hn⟩
    | forget id =>
      obtain ⟨rfl, rfl⟩ := (Worker.Step.get_iff rfl).1 h
      cases hs : after (indexKey id) with
      | none => exact ⟨_, rfl, .miss hn hs⟩
      | some found => exact ⟨_, rfl, .look hn hs⟩
  · rw [worker_locking_of_next hnext] at h
    obtain ⟨hi, rfl, rfl⟩ := (Worker.Step.lock_iff rfl).1 h
    exact ⟨_, (worker_locking_succ hnext).symm, .lock hnext hi⟩

theorem step_listing {f : SimilarityFilter} {posts : List Post} {todo : List Int}
    (h : ((listing f posts todo).worker c).Step .steady False taken store w' after) :
    ∃ e : Errand, w' = e.worker c ∧ (listing f posts todo).Step taken store e after := by
  cases todo with
  | nil =>
    obtain ⟨i, held, hh, rfl, rfl⟩ := (Worker.Step.done_iff rfl).1 h
    exact ⟨_, rfl, .listed hh⟩
  | cons id todo =>
    obtain ⟨rfl, rfl⟩ := (remember_iff rfl).1 h
    cases ha : IndexEntry.adding? (after.entry id) (Fingerprint.of f.toJson) with
    | none => exact ⟨_, rfl, .skip ha⟩
    | some entry => exact ⟨_, rfl, .add ha⟩

theorem step_clearing {id : Int} {listed : List String}
    (h : ((clearing id listed).worker c).Step .steady False taken store w' after) :
    ∃ e : Errand, w' = e.worker c ∧ (clearing id listed).Step taken store e after := by
  cases listed with
  | nil =>
    obtain ⟨rfl, rfl⟩ := (Worker.Step.delete_iff rfl).1 h
    exact ⟨_, rfl, .delete⟩
  | cons fingerprint listed =>
    obtain ⟨rfl, rfl⟩ := (Worker.Step.delete_iff rfl).1 h
    exact ⟨_, rfl, .clear⟩

/-- A step of a worker that has an errand is a step of the errand. -/
theorem step_of_worker {e : Errand} (h : (e.worker c).Step .steady False taken store w' after) :
    ∃ e' : Errand, w' = e'.worker c ∧ e.Step taken store e' after := by
  cases e with
  | locking t n => exact step_locking h
  | listing f posts todo => exact step_listing h
  | writing f posts id entry todo =>
    obtain ⟨rfl, rfl⟩ := (Worker.Step.set_iff rfl).1 h
    exact ⟨_, rfl, .write⟩
  | clearing id listed => exact step_clearing h
  | ending t held =>
    obtain ⟨i, held', hh, rfl, rfl⟩ := (Worker.Step.done_iff rfl).1 h
    obtain rfl : held = i :: held' := hh
    exact ⟨_, rfl, .unlock⟩

/-- Each step of an errand is one that the worker can make. -/
theorem Step.worker {e e' : Errand} (h : e.Step taken store e' after) :
    (e.worker c).Step .steady False taken store (e'.worker c) after := by
  cases h with
  | lock hnext hi =>
    rw [worker_locking_of_next hnext, worker_locking_succ hnext]
    exact (Worker.Step.lock_iff rfl).2 ⟨hi, rfl, rfl⟩
  | keep hn =>
    rw [worker_locking hn]
    exact (Worker.Step.set_iff rfl).2 ⟨rfl, rfl⟩
  | look hn hf =>
    rw [worker_locking hn]
    exact (Worker.Step.get_iff rfl).2 ⟨by rw [hf]; rfl, rfl⟩
  | miss hn hf =>
    rw [worker_locking hn]
    exact (Worker.Step.get_iff rfl).2 ⟨by rw [hf]; rfl, rfl⟩
  | skip ha => exact (remember_iff rfl).2 ⟨by rw [ha]; rfl, rfl⟩
  | add ha => exact (remember_iff rfl).2 ⟨by rw [ha]; rfl, rfl⟩
  | write => exact (Worker.Step.set_iff rfl).2 ⟨rfl, rfl⟩
  | clear => exact (Worker.Step.delete_iff rfl).2 ⟨rfl, rfl⟩
  | delete => exact (Worker.Step.delete_iff rfl).2 ⟨rfl, rfl⟩
  | listed hh => exact (Worker.Step.done_iff rfl).2 ⟨_, _, hh, rfl, rfl⟩
  | unlock => exact (Worker.Step.done_iff rfl).2 ⟨_, _, rfl, rfl, rfl⟩

end Errand
end FilmCatalog
