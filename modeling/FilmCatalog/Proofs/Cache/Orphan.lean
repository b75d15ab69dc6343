import FilmCatalog.Proofs.Cache.Mishap

/-!
# Results without their listings

Each mishap of the four kinds is enough: a worker that is alone with it leaves a
result that some post is not listed for. When a result is kept and its
fingerprint cannot be added to an index entry, or its write-back is cut off
before that, a purge of that post does not find it. When a purge cannot delete
a result, it deletes the index entry all the same.

Key definitions: `Errand.Stumbles`.
Key theorems: `exists_unlisted`, `exists_unlisted_of_delete`, `stays_indexed_iff`.
-/

namespace FilmCatalog

namespace Errand

variable {c : CacheConfig} {workers : ℕ} {may : Mishap → Prop} {e e' : Errand}
  {store after : Shelf} {f : SimilarityFilter} {posts : List Post} {id : Int} {todo : List Int}

/-- Where a worker may come in a workshop without others, by steps and mishaps. -/
def Stumbles (c : CacheConfig) (workers : ℕ) (may : Mishap → Prop) (e : Errand) (store : Shelf)
    (e' : Errand) (after : Shelf) : Prop :=
  Relation.ReflTransGen (Workshop.FaultyStep c workers may) ⟨[], [e.worker c], store⟩
    ⟨[], [e'.worker c], after⟩

theorem Runs.stumbles (h : e.Runs store e' after) : e.Stumbles c workers may store e' after :=
  Workshop.faultySteps_of_steps h.steps

theorem Stumbles.trans {e'' : Errand} {last : Shelf} (h : e.Stumbles c workers may store e' after)
    (h' : e'.Stumbles c workers may after e'' last) : e.Stumbles c workers may store e'' last :=
  Relation.ReflTransGen.trans h h'

theorem stumbles_of_suffers {x : Mishap} (hx : may x)
    (hs : (e.worker c).Suffers x (e'.worker c)) : e.Stumbles c workers may store e' store := by
  have hstep : Workshop.FaultyStep c workers may ⟨[], [] ++ [e.worker c], store⟩
      ⟨[], [] ++ [e'.worker c], store⟩ := .mishap hx rfl hs
  exact .single hstep

/-- A mishap after which there is a failure to count. -/
theorem stumbles_of_counting {x : Mishap} {ns : Namespace} {w : Worker} (hx : may x)
    (hs : (e.worker c).Suffers x w) (hw : w.rest = .count .error ns (e'.worker c).rest)
    (hsame : { w with rest := (e'.worker c).rest } = e'.worker c) :
    e.Stumbles c workers may store e' store := by
  have hfails : Workshop.FaultyStep c workers may ⟨[], [] ++ [e.worker c], store⟩
      ⟨[], [] ++ [w], store⟩ := .mishap hx rfl hs
  have hcounts : Workshop.Step c workers .steady False ⟨[], [] ++ [w], store⟩
      ⟨[], [] ++ [{ w with rest := (e'.worker c).rest }], store⟩ := .work rfl (.count hw)
  rw [hsame] at hcounts
  exact .tail (.single hfails) (.step hcounts)

/-- An index entry that cannot be read stays as it is. -/
theorem stumbles_get (hx : may (.get (.keep f posts) (indexKey id))) :
    (listing f posts (id :: todo)).Stumbles c workers may store (listing f posts todo) store :=
  stumbles_of_counting hx (.get rfl ⟨"", ""⟩) rfl rfl

/-- So does one that cannot be written. -/
theorem stumbles_set (hx : may (.set (.keep f posts) (indexKey id))) :
    (listing f posts (id :: todo)).Stumbles c workers may store (listing f posts todo) store := by
  cases ha : IndexEntry.adding? (store.entry id) (Fingerprint.of f.toJson) with
  | none => exact Runs.stumbles (Step.runs (.skip ha) .refl)
  | some entry =>
    have hadd : (listing f posts (id :: todo)).Runs store (writing f posts id entry todo) store :=
      Step.runs (.add ha) .refl
    exact hadd.stumbles.trans (stumbles_of_counting hx (.set rfl ⟨"", ""⟩) rfl rfl)

/-- A worker that cannot list a result for one post lists it for the others. -/
theorem stumbles_list (c : CacheConfig) (workers : ℕ)
    (hx : may (.get (.keep f posts) (indexKey id)) ∨ may (.set (.keep f posts) (indexKey id)))
    (todo : List Int) (store : Shelf) :
    ∃ after, (listing f posts todo).Stumbles c workers may store (listing f posts []) after ∧
      (∀ fingerprint, after (Namespace.similar.key fingerprint) =
        store (Namespace.similar.key fingerprint)) ∧
      after (indexKey id) = store (indexKey id) := by
  induction todo generalizing store with
  | nil => exact ⟨store, .refl, fun _ => rfl, rfl⟩
  | cons other todo ih =>
    by_cases he : other = id
    · subst he
      obtain ⟨after, hpath, hsame, hentry⟩ := ih store
      exact ⟨after, (hx.elim stumbles_get stumbles_set).trans hpath, hsame, hentry⟩
    · cases ha : IndexEntry.adding? (store.entry other) (Fingerprint.of f.toJson) with
      | none =>
        obtain ⟨after, hpath, hsame, hentry⟩ := ih store
        have hskip : (listing f posts (other :: todo)).Runs store (listing f posts todo) store :=
          Step.runs (.skip ha) .refl
        exact ⟨after, hskip.stumbles.trans hpath, hsame, hentry⟩
      | some entry =>
        obtain ⟨after, hpath, hsame, hentry⟩ :=
          ih (Function.update store (indexKey other) (some ⟨entry, .keep f posts⟩))
        have hadd : (listing f posts (other :: todo)).Runs store (listing f posts todo) _ :=
          Step.runs (.add ha) (Step.runs .write .refl)
        refine ⟨after, hadd.stumbles.trans hpath, fun fingerprint => ?_, ?_⟩
        · rw [hsame, Function.update_of_ne (similarKey_ne_indexKey _ _)]
        · rw [hentry, Function.update_of_ne fun h => he (indexKey_injective h).symm]

/-- A purge that cannot delete a result goes on to the end. -/
theorem stumbles_delete (c : CacheConfig) (workers : ℕ) {fingerprint : String}
    (hx : may (.delete (.forget id) (Namespace.similar.key fingerprint))) (listed : List String)
    (store : Shelf) :
    ∃ after, (clearing id listed).Stumbles c workers may store (clearing id []) after ∧
      after (Namespace.similar.key fingerprint) = store (Namespace.similar.key fingerprint) := by
  induction listed generalizing store with
  | nil => exact ⟨store, .refl, rfl⟩
  | cons other listed ih =>
    by_cases he : other = fingerprint
    · subst he
      obtain ⟨after, hpath, hsame⟩ := ih store
      have hfails : (clearing id (other :: listed)).Stumbles c workers may store
          (clearing id listed) store := stumbles_of_counting hx (.delete rfl ⟨"", ""⟩) rfl rfl
      exact ⟨after, hfails.trans hpath, hsame⟩
    · obtain ⟨after, hpath, hsame⟩ :=
        ih (Function.update store (Namespace.similar.key other) none)
      have hclear : (clearing id (other :: listed)).Runs store (clearing id listed) _ :=
        Step.runs .clear .refl
      refine ⟨after, hclear.stumbles.trans hpath, ?_⟩
      rw [hsame, Shelf.update_result_of_ne _ (Ne.symm he)]

end Errand

namespace Workshop.FaultyReachable

variable {c : CacheConfig} {workers : ℕ} {may : Mishap → Prop} {store after : Shelf}

/-- A task that is submitted while there are no others gets its stripes and
comes to an end. -/
theorem stumbles (hw : 0 < workers) {t t' : IndexTask} {held : List ℕ}
    (hr : FaultyReachable c workers may ⟨[], [], store⟩)
    (h : (Errand.locking t (stripesOf t.ids).length).Stumbles c workers may store
      (.ending t' held) after) :
    FaultyReachable c workers may ⟨[], [], after⟩ := by
  have hbegun := (hr.tail (.step (.submit t))).tail (.step (.begin rfl hw))
  rw [IndexTask.job_eq] at hbegun
  have hlock : (Errand.locking t 0).Stumbles c workers may store _ store :=
    (Errand.runs_lock t _ (le_refl _)).stumbles
  have hended := (hlock.trans h).trans (Errand.runs_unlock t' held).stumbles
  have hfinish : Step c workers .steady False
      ⟨[], [(Errand.ending t' []).worker c], after⟩ ⟨[], [] ++ [], after⟩ :=
    .finish (List.nil_append [_]).symm rfl rfl
  exact (Relation.ReflTransGen.trans hbegun hended).tail (.step hfinish)

end Workshop.FaultyReachable

/-! ## One mishap is enough -/

/-- A store with nothing but a result. -/
def Shelf.only (f : SimilarityFilter) (posts : List Post) : Shelf :=
  Function.update (fun _ => none) (Namespace.similar.key (Fingerprint.of f.toJson))
    (some ⟨(Json.ofList Post.toJson posts).encoded, .keep f posts⟩)

theorem Shelf.only_index (f : SimilarityFilter) (posts : List Post) (id : Int) :
    Shelf.only f posts (indexKey id) = none :=
  Function.update_of_ne (similarKey_ne_indexKey _ _).symm _ _

section
variable (c : CacheConfig) {workers : ℕ} {may : Mishap → Prop}

/-- A write-back keeps its result before it lists it. -/
theorem Errand.stumbles_keep (f : SimilarityFilter) (posts : List Post) :
    (locking (.keep f posts) (stripesOf (contributors f posts)).length).Stumbles c workers may
      (fun _ => none) (listing f posts (contributors f posts)) (Shelf.only f posts) :=
  Runs.stumbles (Step.runs (.keep (le_refl _)) .refl)

/-- What is kept by a write-back that is cut off is not listed. -/
theorem exists_unlisted_of_cut (hw : 0 < workers) {f : SimilarityFilter} {posts : List Post}
    (hx : may (.cut (.keep f posts))) :
    ∃ store : Shelf, Workshop.FaultyReachable c workers may ⟨[], [], store⟩ ∧
      store.Loses f posts f.id := by
  have hcut : (Errand.listing f posts (contributors f posts)).Stumbles c workers may
      (Shelf.only f posts) (.ending (.keep f posts) (stripesOf (contributors f posts))) _ :=
    Errand.stumbles_of_suffers hx .cut
  have hpath := (Errand.stumbles_keep c f posts).trans hcut
  refine ⟨_, Workshop.FaultyReachable.stumbles hw .refl hpath, Function.update_self _ _ _,
    mem_contributors.2 (.inl rfl), ?_⟩
  rw [Shelf.listed_of_none (Shelf.only_index f posts f.id)]
  exact List.not_mem_nil

/-- What is kept is not listed for a post whose index entry cannot be read or written. -/
theorem exists_unlisted (hw : 0 < workers) {f : SimilarityFilter} {posts : List Post} {id : Int}
    (hid : id ∈ contributors f posts)
    (hx : may (.get (.keep f posts) (indexKey id)) ∨ may (.set (.keep f posts) (indexKey id))) :
    ∃ store : Shelf, Workshop.FaultyReachable c workers may ⟨[], [], store⟩ ∧
      store.Loses f posts id := by
  obtain ⟨after, hlist, hsame, hentry⟩ :=
    Errand.stumbles_list c workers hx (contributors f posts) (Shelf.only f posts)
  obtain ⟨i, held, hheld⟩ :=
    List.exists_cons_of_ne_nil (List.ne_nil_of_mem (stripe_mem_stripesOf hid))
  have hend : (Errand.listing f posts []).Runs after (.ending (.keep f posts) held) after :=
    Errand.Step.runs (.listed hheld) .refl
  have hpath := ((Errand.stumbles_keep c f posts).trans hlist).trans hend.stumbles
  refine ⟨after, Workshop.FaultyReachable.stumbles hw .refl hpath, ?_, hid, ?_⟩
  · rw [hsame]
    exact Function.update_self _ _ _
  · rw [Shelf.listed_of_none (hentry.trans (Shelf.only_index f posts id))]
    exact List.not_mem_nil

/-- A result that a purge cannot delete loses its listing. -/
theorem exists_unlisted_of_delete (hw : 0 < workers) {f : SimilarityFilter} {posts : List Post}
    {id : Int} (hid : id ∈ contributors f posts)
    (hx : may (.delete (.forget id) (Namespace.similar.key (Fingerprint.of f.toJson)))) :
    ∃ store : Shelf, Workshop.FaultyReachable c workers may ⟨[], [], store⟩ ∧
      store.Loses f posts id := by
  have hstart : Workshop.Reachable c workers .steady False (fun _ => none)
      ⟨[], [], fun _ => none⟩ := .refl
  obtain ⟨kept, hr, hf⟩ := hstart.keeps hw f posts
  have hkept : Workshop.FaultyReachable c workers may ⟨[], [], kept⟩ :=
    Workshop.faultySteps_of_steps hr
  -- while nothing fails, the result is listed for the post
  obtain ⟨entry, hentry⟩ : ∃ entry, kept (indexKey id) = some entry := by
    obtain ⟨errands, hc⟩ := Covered.of_reachable hr
    obtain rfl : errands = [] := List.map_eq_nil_iff.1 hc.busy.symm
    have hlisted := (hc.covered id _ ⟨_, hf, hid⟩).resolve_right (by simp)
    by_contra hnone
    rw [← Option.isSome_iff_exists, Option.not_isSome_iff_eq_none] at hnone
    rw [Shelf.listed_of_none hnone] at hlisted
    cases hlisted
  have hlook : (Errand.locking (.forget id) (stripesOf [id]).length).Runs kept
      (.clearing id (IndexEntry.read entry.value)) kept :=
    Errand.Step.runs (.look (le_refl _) hentry) .refl
  obtain ⟨cleared, hclear, hsame⟩ :=
    Errand.stumbles_delete c workers hx (IndexEntry.read entry.value) kept
  have hdelete : (Errand.clearing id []).Runs cleared (.ending (.forget id) (stripesOf [id])) _ :=
    Errand.Step.runs .delete .refl
  have hpath := (hlook.stumbles.trans hclear).trans hdelete.stumbles
  refine ⟨_, Workshop.FaultyReachable.stumbles hw hkept hpath, ?_, hid, ?_⟩
  · rw [Function.update_of_ne (similarKey_ne_indexKey _ _), hsame, hf]
  · rw [Shelf.listed_of_none (Function.update_self _ _ _)]
    exact List.not_mem_nil

end

/-! ## Which mishaps do harm -/

/-- All results stay listed for all their posts, whenever nobody is at work, iff
nothing may happen but what orphans no result. -/
theorem stays_indexed_iff (c : CacheConfig) (may : Mishap → Prop) :
    (∀ s : Workshop Shelf, s.FaultyReachable c c.workersFloor may → s.waiting = [] →
      s.busy = [] → s.store.Indexed) ↔ ∀ x, may x → ¬x.Orphans := by
  constructor
  · intro h x hx horphans
    have hw : 0 < c.workersFloor := Nat.lt_of_lt_of_le Nat.zero_lt_one (Nat.le_max_right _ _)
    have hloses : ∃ store : Shelf, ∃ f posts id,
        Workshop.FaultyReachable c c.workersFloor may ⟨[], [], store⟩ ∧
          store.Loses f posts id := by
      cases horphans with
      | cut f posts =>
        obtain ⟨store, hr, hl⟩ := exists_unlisted_of_cut c hw hx
        exact ⟨store, f, posts, f.id, hr, hl⟩
      | @get f posts id hid =>
        obtain ⟨store, hr, hl⟩ := exists_unlisted c hw hid (.inl hx)
        exact ⟨store, f, posts, id, hr, hl⟩
      | @set f posts id hid =>
        obtain ⟨store, hr, hl⟩ := exists_unlisted c hw hid (.inr hx)
        exact ⟨store, f, posts, id, hr, hl⟩
      | delete id f =>
        have hid : id ∈ contributors f [{ Post.neighbour with id := id }] :=
          mem_contributors.2 (.inr ⟨_, List.mem_cons_self, rfl⟩)
        obtain ⟨store, hr, hl⟩ := exists_unlisted_of_delete c hw hid hx
        exact ⟨store, f, _, id, hr, hl⟩
    obtain ⟨store, f, posts, id, hr, hl⟩ := hloses
    exact hl.not_indexed (h _ hr rfl rfl)
  · intro hmay s hr _ hidle
    exact hr.indexed hmay hidle

/-- A purge of post 2 that cannot delete the result that has it, and meets with
no other mishap, leaves the result without its listing. -/
theorem neighbour_unlisted_after_purge :
    ∃ s : Workshop Shelf, ∃ found : Kept,
      s.FaultyReachable {} 4 (· = .delete (.forget 2)
        (Namespace.similar.key (Fingerprint.of (SimilarityFilter.around 1).toJson))) ∧
      s.waiting = [] ∧ s.busy = [] ∧
      s.store (Namespace.similar.key (Fingerprint.of (SimilarityFilter.around 1).toJson)) =
        some found ∧
      found.IsResult (Fingerprint.of (SimilarityFilter.around 1).toJson) (.around 1)
        [.neighbour] ∧
      Fingerprint.of (SimilarityFilter.around 1).toJson ∉ s.store.listed Post.neighbour.id := by
  have hid : (2 : Int) ∈ contributors (.around 1) [.neighbour] :=
    mem_contributors.2 (.inr ⟨_, List.mem_cons_self, rfl⟩)
  obtain ⟨store, hr, hf, -, hnot⟩ :
      ∃ store : Shelf, Workshop.FaultyReachable {} 4 (· = .delete (.forget 2)
        (Namespace.similar.key (Fingerprint.of (SimilarityFilter.around 1).toJson)))
          ⟨[], [], store⟩ ∧ store.Loses (.around 1) [.neighbour] 2 :=
    exists_unlisted_of_delete {} (by decide) hid rfl
  exact ⟨⟨[], [], store⟩, _, hr, rfl, rfl, hf, ⟨rfl, rfl⟩, hnot⟩

end FilmCatalog
