import FilmCatalog.Proofs.Cache.Errand

/-!
# A task alone

A worker that nobody else is in the way of gets all its stripes, makes its
calls and gives the stripes back: in a workshop without other tasks, every
result that is submitted comes to be kept.

Key definitions: `Errand.Runs`.
Key theorems: `Errand.runs_keep`, `Errand.Runs.steps`, `Workshop.Reachable.keeps`.
-/

namespace FilmCatalog

theorem nodup_stripesOf (ids : List Int) : (stripesOf ids).Nodup :=
  List.nodup_range.filter _

namespace Errand

/-- Where a worker comes while nobody else has stripes. -/
def Runs (e : Errand) (store : Shelf) (e' : Errand) (after : Shelf) : Prop :=
  Relation.ReflTransGen (fun a b : Errand × Shelf => a.1.Step a.1.held a.2 b.1 b.2)
    (e, store) (e', after)

variable {store : Shelf}

theorem Step.runs {e e' e'' : Errand} {mid after : Shelf} (h : e.Step e.held store e' mid)
    (hr : e'.Runs mid e'' after) : e.Runs store e'' after :=
  .head h hr

theorem Runs.step {e e' e'' : Errand} {mid after : Shelf} (hr : e.Runs store e' mid)
    (h : e'.Step e'.held mid e'' after) : e.Runs store e'' after :=
  .tail hr h

/-- It gets its next stripe. -/
theorem step_lock (t : IndexTask) {n : ℕ} (hn : n < (stripesOf t.ids).length) :
    (locking t n).Step (locking t n).held store (locking t (n + 1)) store := by
  have hget : (stripesOf t.ids)[n]? = some (stripesOf t.ids)[n] := List.getElem?_eq_getElem hn
  have hfree : (stripesOf t.ids)[n] ∉ (stripesOf t.ids).take n := by
    have hnodup := (nodup_stripesOf t.ids).sublist (List.take_sublist (n + 1) _)
    rw [List.take_add_one, hget, Option.toList_some, List.nodup_append] at hnodup
    exact fun hmem => hnodup.2.2 _ hmem _ List.mem_cons_self rfl
  exact .lock hget hfree

/-- It gets its stripes one after the other. -/
theorem runs_lock (t : IndexTask) (n : ℕ) (hn : n ≤ (stripesOf t.ids).length) :
    (locking t 0).Runs store (locking t n) store := by
  induction n with
  | zero => exact .refl
  | succ n ih => exact Runs.step (ih (Nat.le_of_succ_le hn)) (step_lock t hn)

/-- It lists a result for all its posts, which does not touch any result. -/
theorem runs_list (f : SimilarityFilter) (posts : List Post) (todo : List Int) (store : Shelf) :
    ∃ after, (listing f posts todo).Runs store (listing f posts []) after ∧
      ∀ fingerprint, after (Namespace.similar.key fingerprint) =
        store (Namespace.similar.key fingerprint) := by
  induction todo generalizing store with
  | nil => exact ⟨store, .refl, fun _ => rfl⟩
  | cons id todo ih =>
    cases ha : IndexEntry.adding? (store.entry id) (Fingerprint.of f.toJson) with
    | none =>
      obtain ⟨after, hruns, hsame⟩ := ih store
      exact ⟨after, Step.runs (.skip ha) hruns, hsame⟩
    | some entry =>
      obtain ⟨after, hruns, hsame⟩ :=
        ih (Function.update store (indexKey id) (some ⟨entry, .keep f posts⟩))
      refine ⟨after, Step.runs (.add ha) (Step.runs .write hruns), fun fingerprint => ?_⟩
      rw [hsame, Function.update_of_ne (similarKey_ne_indexKey _ _)]

theorem runs_unlock (t : IndexTask) (held : List ℕ) :
    (ending t held).Runs store (ending t []) store := by
  induction held with
  | nil => exact .refl
  | cons i held ih => exact Step.runs .unlock ih

/-- A purge for whose post nothing is listed changes nothing. -/
theorem runs_miss {id : Int} (h : store (indexKey id) = none) :
    (locking (.forget id) 0).Runs store (ending (.forget id) []) store := by
  have hlock : (locking (.forget id) 0).Runs store _ store := runs_lock _ _ (le_refl _)
  exact (Runs.step hlock (.miss (le_refl _) h)).trans (runs_unlock _ _)

/-- It deletes the results that are listed for a post, and leaves the index alone. -/
theorem runs_clear (id : Int) (listed : List String) (store : Shelf) :
    ∃ after, (clearing id listed).Runs store (clearing id []) after ∧
      ∀ other, after (indexKey other) = store (indexKey other) := by
  induction listed generalizing store with
  | nil => exact ⟨store, .refl, fun _ => rfl⟩
  | cons fingerprint listed ih =>
    obtain ⟨after, hruns, hsame⟩ :=
      ih (Function.update store (Namespace.similar.key fingerprint) none)
    refine ⟨after, Step.runs .clear hruns, fun other => ?_⟩
    rw [hsame, Function.update_of_ne (similarKey_ne_indexKey _ _).symm]

/-- It removes the index entry of a post, and no other one. -/
theorem runs_forget (id : Int) (store : Shelf) :
    ∃ after held, (locking (.forget id) (stripesOf [id]).length).Runs store
        (ending (.forget id) held) after ∧
      after (indexKey id) = none ∧
      ∀ other ≠ id, after (indexKey other) = store (indexKey other) := by
  cases hs : store (indexKey id) with
  | none => exact ⟨store, _, Step.runs (.miss (le_refl _) hs) .refl, hs, fun _ _ => rfl⟩
  | some found =>
    obtain ⟨cleared, hruns, hsame⟩ := runs_clear id (IndexEntry.read found.value) store
    refine ⟨_, _, Step.runs (.look (le_refl _) hs) (hruns.step .delete),
      Function.update_self _ _ _, fun other hne => ?_⟩
    rw [Function.update_of_ne fun hk => hne (indexKey_injective hk), hsame]

/-- A result is kept, whatever was stored before. -/
theorem runs_keep (f : SimilarityFilter) (posts : List Post) (store : Shelf) :
    ∃ after, (locking (.keep f posts) 0).Runs store (ending (.keep f posts) []) after ∧
      after (Namespace.similar.key (Fingerprint.of f.toJson)) =
        some ⟨(Json.ofList Post.toJson posts).encoded, .keep f posts⟩ := by
  have hlock : (locking (.keep f posts) 0).Runs store _ store :=
    runs_lock _ _ (le_refl _)
  obtain ⟨after, hlist, hsame⟩ := runs_list f posts (contributors f posts)
    (Function.update store (Namespace.similar.key (Fingerprint.of f.toJson))
      (some ⟨(Json.ofList Post.toJson posts).encoded, .keep f posts⟩))
  obtain ⟨i, held, hheld⟩ := List.exists_cons_of_ne_nil (List.ne_nil_of_mem
    (stripe_mem_stripesOf (mem_contributors.2 (.inl rfl) : f.id ∈ contributors f posts)))
  refine ⟨after, ?_, by rw [hsame, Function.update_self]⟩
  have hkept := hlock.trans (Step.runs (.keep (le_refl _)) hlist)
  exact (Runs.step hkept (.listed hheld)).trans (runs_unlock _ held)

end Errand

/-- The stripes that are taken are those of a worker without others. -/
theorem Errand.taken_alone {σ : Type} (e : Errand) (c : CacheConfig) (store : σ) :
    Workshop.taken ⟨[], [e.worker c], store⟩ = e.held := by
  simp [Workshop.taken, held_worker]

/-- What a worker does alone are steps of a workshop without others. -/
theorem Errand.Runs.steps {c : CacheConfig} {workers : ℕ} {e e' : Errand} {store after : Shelf}
    (h : e.Runs store e' after) :
    Relation.ReflTransGen (Workshop.Step c workers .steady False) ⟨[], [e.worker c], store⟩
      ⟨[], [e'.worker c], after⟩ := by
  refine h.lift (fun a : Errand × Shelf => (⟨[], [a.1.worker c], a.2⟩ : Workshop Shelf))
    fun a b hs => ?_
  exact .work (List.nil_append [a.1.worker c]).symm (a.1.taken_alone c a.2 ▸ hs.worker)

namespace Workshop.Reachable

variable {c : CacheConfig} {workers : ℕ} {start store after : Shelf}

/-- What a worker does alone, it can do in a workshop without others. -/
theorem runs {e e' : Errand} (h : e.Runs store e' after)
    (hr : Reachable c workers .steady False start ⟨[], [e.worker c], store⟩) :
    Reachable c workers .steady False start ⟨[], [e'.worker c], after⟩ :=
  Relation.ReflTransGen.trans hr h.steps

/-- A result that is submitted while there are no other tasks comes to be kept. -/
theorem keeps (hw : 0 < workers) (f : SimilarityFilter) (posts : List Post)
    (hr : Reachable c workers .steady False start ⟨[], [], store⟩) :
    ∃ after, Reachable c workers .steady False start ⟨[], [], after⟩ ∧
      after (Namespace.similar.key (Fingerprint.of f.toJson)) =
        some ⟨(Json.ofList Post.toJson posts).encoded, .keep f posts⟩ := by
  obtain ⟨after, hruns, hkept⟩ := Errand.runs_keep f posts store
  have hbegun := (hr.tail (.submit (.keep f posts))).tail (.begin rfl hw)
  rw [IndexTask.job_eq] at hbegun
  have hdone := runs (c := c) hruns hbegun
  have hfinish : Step c workers .steady False
      ⟨[], [(Errand.ending (.keep f posts) []).worker c], after⟩ ⟨[], [] ++ [], after⟩ :=
    .finish (List.nil_append [_]).symm rfl rfl
  exact ⟨after, hdone.tail hfinish, hkept⟩

end Workshop.Reachable
end FilmCatalog
