import FilmCatalog.Proofs.Cache.Alone

/-!
# Every kept result is listed

A kept result is listed in the index entry of each of its posts, or a worker
that holds the stripe of the post is about to list it there. Since a worker
reads and writes an entry under its stripe, no listing is lost, and since a
purge holds the stripe while it deletes, no result of its post comes in between.

Key definitions: `Shelf.ResultOf`, `Errand.Owes`, `Errand.Sound`, `Covered`, `Shelf.Indexed`,
`Shelf.Loses`.
Key theorems: `Errand.Step.sound`, `Covered.step`, `Covered.indexed`, `results_are_listed`.
-/

namespace FilmCatalog

/-! ## What a store holds -/

/-- Whether a result of a post is kept under a fingerprint. -/
def Shelf.ResultOf (store : Shelf) (id : Int) (fingerprint : String) : Prop :=
  ∃ found, store (Namespace.similar.key fingerprint) = some found ∧ id ∈ found.writer.ids

namespace Shelf

variable {store : Shelf} {id : Int} {fingerprint : String}

theorem listed_some {found : Kept} (h : store (indexKey id) = some found) :
    store.listed id = IndexEntry.read found.value := by
  rw [listed, entry, h]
  rfl

theorem listed_of_none (h : store (indexKey id) = none) : store.listed id = [] := by
  rw [listed, entry, h]
  rfl

theorem mem_listed : fingerprint ∈ store.listed id ↔
    ∃ found, store (indexKey id) = some found ∧ fingerprint ∈ IndexEntry.read found.value := by
  cases hs : store (indexKey id) with
  | none => simp [listed_of_none hs]
  | some found => simp [listed_some hs]

/-- Results are kept apart from the index. -/
theorem listed_update_result (entry : Option Kept) :
    Shelf.listed (Function.update store (Namespace.similar.key fingerprint) entry) id =
      store.listed id := by
  have hne : indexKey id ≠ Namespace.similar.key fingerprint := (similarKey_ne_indexKey _ _).symm
  simp only [listed, Shelf.entry, Function.update_of_ne hne]

theorem listed_update_of_ne {other : Int} (entry : Option Kept) (h : id ≠ other) :
    Shelf.listed (Function.update store (indexKey other) entry) id = store.listed id := by
  have hne : indexKey id ≠ indexKey other := fun he => h (indexKey_injective he)
  simp only [listed, Shelf.entry, Function.update_of_ne hne]

theorem listed_update_self (found : Kept) :
    Shelf.listed (Function.update store (indexKey id) (some found)) id =
      IndexEntry.read found.value :=
  listed_some (Function.update_self _ _ _)

theorem resultOf_update_index {other : Int} (entry : Option Kept) :
    Shelf.ResultOf (Function.update store (indexKey other) entry) id fingerprint ↔
      store.ResultOf id fingerprint := by
  simp only [ResultOf, Function.update_of_ne (similarKey_ne_indexKey fingerprint other)]

theorem update_result_of_ne {other : String} (entry : Option Kept) (h : fingerprint ≠ other) :
    Function.update store (Namespace.similar.key other) entry (Namespace.similar.key fingerprint) =
      store (Namespace.similar.key fingerprint) :=
  Function.update_of_ne (fun hk => h (Namespace.key_inj.1 hk).2) _ _

theorem ResultOf.of_delete {other : String}
    (h : Shelf.ResultOf (Function.update store (Namespace.similar.key other) none) id
      fingerprint) : fingerprint ≠ other ∧ store.ResultOf id fingerprint := by
  obtain ⟨found, hf, hid⟩ := h
  by_cases he : fingerprint = other
  · rw [he, Function.update_self] at hf
    cases hf
  · rw [update_result_of_ne _ he] at hf
    exact ⟨he, found, hf, hid⟩

/-- The result under another fingerprint is not touched. -/
theorem ResultOf.of_keep {other : String} {entry : Kept}
    (h : Shelf.ResultOf (Function.update store (Namespace.similar.key other) (some entry)) id
      fingerprint) :
    fingerprint = other ∧ id ∈ entry.writer.ids ∨ store.ResultOf id fingerprint := by
  obtain ⟨found, hf, hid⟩ := h
  by_cases he : fingerprint = other
  · rw [he, Function.update_self] at hf
    cases hf
    exact .inl ⟨he, hid⟩
  · rw [update_result_of_ne _ he] at hf
    exact .inr ⟨found, hf, hid⟩

end Shelf

/-! ## What a worker owes -/

namespace Errand

/-- Whether a worker is about to list a fingerprint for a post. -/
def Owes (id : Int) (fingerprint : String) : Errand → Prop
  | listing f _ todo => fingerprint = Fingerprint.of f.toJson ∧ id ∈ todo
  | writing f _ next _ todo => fingerprint = Fingerprint.of f.toJson ∧ (id = next ∨ id ∈ todo)
  | _ => False

/-- What a worker relies on. It lists for posts of its result only. The entry
that it is about to write has all that is listed for the post; what it is about
to delete has all results of the post. -/
def Sound (store : Shelf) : Errand → Prop
  | locking _ _ => True
  | listing f posts todo => todo ⊆ contributors f posts
  | writing f posts id entry todo =>
    id :: todo ⊆ contributors f posts ∧ Fingerprint.of f.toJson ∈ IndexEntry.read entry ∧
      store.listed id ⊆ IndexEntry.read entry
  | clearing id listed => ∀ fingerprint, store.ResultOf id fingerprint → fingerprint ∈ listed
  | ending _ _ => True

variable {e e' : Errand} {taken : List ℕ} {store after : Shelf} {id : Int} {fingerprint : String}

/-- What a worker owes to a post, it owes under the stripe of the post. -/
theorem Sound.stripe_mem (h : e.Sound store) (ho : e.Owes id fingerprint) :
    stripe id ∈ e.held := by
  cases e with
  | listing f posts todo => exact stripe_mem_stripesOf (h ho.2)
  | writing f posts next entry todo =>
    exact stripe_mem_stripesOf (h.1 (List.mem_cons.2 ho.2))
  | locking t n => exact ho.elim
  | clearing other listed => exact ho.elim
  | ending t held => exact ho.elim

/-- A worker relies on nothing that happens under the stripes of others. -/
theorem Sound.frame (h : e.Sound store)
    (hl : ∀ id, stripe id ∈ e.held → Shelf.listed after id = store.listed id)
    (hr : ∀ id fingerprint, stripe id ∈ e.held → after.ResultOf id fingerprint →
      store.ResultOf id fingerprint) : e.Sound after := by
  cases e with
  | locking t n => trivial
  | listing f posts todo => exact h
  | writing f posts next entry todo =>
    obtain ⟨hmem, hfp, hsub⟩ := h
    refine ⟨hmem, hfp, ?_⟩
    rw [hl next (stripe_mem_stripesOf (hmem List.mem_cons_self))]
    exact hsub
  | clearing other listed =>
    exact fun fp hfp => h fp (hr other fp (stripe_mem_stripesOf List.mem_cons_self) hfp)
  | ending t held => trivial

namespace Step

/-- A step takes no stripe that somebody holds. -/
theorem held_mem (h : e.Step taken store e' after) {i : ℕ} (hi : i ∈ e'.held) :
    i ∈ e.held ∨ i ∉ taken := by
  cases h with
  | @lock t n j hj hfree =>
    rw [held, List.take_add_one, hj, Option.toList_some, List.mem_append,
      List.mem_singleton] at hi
    rcases hi with hi | rfl
    · exact .inl hi
    · exact .inr hfree
  | keep hn => exact .inl (by rwa [held, IndexTask.ids, List.take_of_length_le hn])
  | look hn _ => exact .inl (by rwa [held, IndexTask.ids, List.take_of_length_le hn])
  | miss hn _ => exact .inl (by rwa [held, IndexTask.ids, List.take_of_length_le hn])
  | listed hh =>
    rw [held, hh]
    exact .inl (List.mem_cons_of_mem _ hi)
  | unlock => exact .inl (List.mem_cons_of_mem _ hi)
  | _ => exact .inl hi

/-- The index entry of a post is changed only under its stripe. -/
theorem listed_eq (h : e.Step taken store e' after) (hs : e.Sound store)
    (hid : stripe id ∉ e.held) : Shelf.listed after id = store.listed id := by
  cases h with
  | keep _ => exact Shelf.listed_update_result _
  | clear => exact Shelf.listed_update_result _
  | @write f posts next entry todo =>
    have hnext : stripe next ∈ stripesOf (contributors f posts) :=
      stripe_mem_stripesOf (hs.1 List.mem_cons_self)
    exact Shelf.listed_update_of_ne _ fun he => hid (he ▸ hnext)
  | @delete other =>
    have hother : stripe other ∈ stripesOf [other] := stripe_mem_stripesOf List.mem_cons_self
    exact Shelf.listed_update_of_ne _ fun he => hid (he ▸ hother)
  | _ => rfl

/-- A new result is to be listed for each of its posts. -/
theorem resultOf (h : e.Step taken store e' after) (hr : after.ResultOf id fingerprint) :
    store.ResultOf id fingerprint ∨ e'.Owes id fingerprint := by
  cases h with
  | keep _ => exact hr.of_keep.symm
  | clear => exact .inl hr.of_delete.2
  | write => exact .inl ((Shelf.resultOf_update_index _).1 hr)
  | delete => exact .inl ((Shelf.resultOf_update_index _).1 hr)
  | _ => exact .inl hr

/-- A listing is lost only together with all results of the post. -/
theorem listed_kept (h : e.Step taken store e' after) (hs : e.Sound store)
    (hl : fingerprint ∈ store.listed id) (hr : after.ResultOf id fingerprint) :
    fingerprint ∈ Shelf.listed after id := by
  cases h with
  | keep _ => rwa [Shelf.listed_update_result]
  | clear => rwa [Shelf.listed_update_result]
  | @write f posts next entry todo =>
    by_cases he : id = next
    · subst he
      rw [Shelf.listed_update_self]
      exact hs.2.2 hl
    · rwa [Shelf.listed_update_of_ne _ he]
  | @delete other =>
    have hold := (Shelf.resultOf_update_index _).1 hr
    have he : id ≠ other := by
      rintro rfl
      exact List.not_mem_nil (hs fingerprint hold)
    rwa [Shelf.listed_update_of_ne _ he]
  | _ => exact hl

/-- What is owed is still owed or was listed. -/
theorem owes (h : e.Step taken store e' after) (hs : e.Sound store)
    (ho : e.Owes id fingerprint) :
    e'.Owes id fingerprint ∨ fingerprint ∈ Shelf.listed after id := by
  cases h with
  | skip ha =>
    obtain ⟨rfl, hid⟩ := ho
    rcases List.mem_cons.1 hid with rfl | hid
    · exact .inr (IndexEntry.mem_read_of_adding? ha)
    · exact .inl ⟨rfl, hid⟩
  | add _ => exact .inl ⟨ho.1, List.mem_cons.1 ho.2⟩
  | write =>
    obtain ⟨rfl, rfl | hid⟩ := ho
    · rw [Shelf.listed_update_self]
      exact .inr hs.2.1
    · exact .inl ⟨rfl, hid⟩
  | listed hh => exact absurd ho.2 List.not_mem_nil
  | _ => exact ho.elim

/-- A worker can rely on what it relied on. A purge finds all results of its
post, provided that those of the posts of its stripes are listed. -/
theorem sound (h : e.Step taken store e' after) (hs : e.Sound store)
    (hc : ∀ id fingerprint, stripe id ∈ e.held → store.ResultOf id fingerprint →
      fingerprint ∈ store.listed id ∨ e.Owes id fingerprint) : e'.Sound after := by
  cases h with
  | keep _ => exact List.Subset.refl _
  | @look other n found hn hf =>
    intro fp hfp
    have hother : stripe other ∈ (locking (.forget other) n).held := by
      rw [held, IndexTask.ids, List.take_of_length_le hn]
      exact stripe_mem_stripesOf List.mem_cons_self
    rcases hc other fp hother hfp with hl | ho
    · rwa [Shelf.listed_some hf] at hl
    · exact ho.elim
  | skip _ => exact fun _ hi => hs (List.mem_cons_of_mem _ hi)
  | @add f posts next todo entry ha =>
    have hread : IndexEntry.read entry = store.listed next ++ [Fingerprint.of f.toJson] :=
      IndexEntry.read_of_adding? (isName_fingerprint _) ha
    refine ⟨hs, ?_, ?_⟩
    · rw [hread]
      exact List.mem_append_right _ List.mem_cons_self
    · rw [hread]
      exact List.subset_append_left _ _
  | write => exact fun _ hi => hs.1 (List.mem_cons_of_mem _ hi)
  | clear =>
    intro fp hfp
    obtain ⟨hne, hold⟩ := hfp.of_delete
    exact (List.mem_cons.1 (hs fp hold)).resolve_left hne
  | _ => trivial

end Step
end Errand

/-! ## The invariant -/

/-- Whether an entry is the result of a filter with a fingerprint. -/
def Kept.IsResult (found : Kept) (fingerprint : String) (f : SimilarityFilter)
    (posts : List Post) : Prop :=
  found = ⟨(Json.ofList Post.toJson posts).encoded, .keep f posts⟩ ∧
    Fingerprint.of f.toJson = fingerprint

/-- The workers have errands and share no stripe; each result is listed for
each of its posts, or some worker owes it to the post. -/
structure Covered (c : CacheConfig) (errands : List Errand) (s : Workshop Shelf) : Prop where
  busy : s.busy = errands.map (·.worker c)
  apart : errands.Pairwise fun a b => a.held.Disjoint b.held
  sound : ∀ e ∈ errands, e.Sound s.store
  results : ∀ fingerprint found, s.store (Namespace.similar.key fingerprint) = some found →
    ∃ f posts, found.IsResult fingerprint f posts
  covered : ∀ id fingerprint, s.store.ResultOf id fingerprint →
    fingerprint ∈ s.store.listed id ∨ ∃ e ∈ errands, e.Owes id fingerprint

theorem Errand.Step.results {e e' : Errand} {taken : List ℕ} {store after : Shelf}
    (h : e.Step taken store e' after)
    (hs : ∀ fingerprint found, store (Namespace.similar.key fingerprint) = some found →
      ∃ f posts, found.IsResult fingerprint f posts) (fingerprint : String) (found : Kept)
    (hf : after (Namespace.similar.key fingerprint) = some found) :
    ∃ f posts, found.IsResult fingerprint f posts := by
  cases h with
  | @keep f posts n hn =>
    by_cases he : fingerprint = Fingerprint.of f.toJson
    · rw [he, Function.update_self] at hf
      cases hf
      exact ⟨f, posts, rfl, he.symm⟩
    · rw [Shelf.update_result_of_ne _ he] at hf
      exact hs _ _ hf
  | @clear id other listed =>
    by_cases he : fingerprint = other
    · rw [he, Function.update_self] at hf
      cases hf
    · rw [Shelf.update_result_of_ne _ he] at hf
      exact hs _ _ hf
  | write =>
    rw [Function.update_of_ne (similarKey_ne_indexKey _ _)] at hf
    exact hs _ _ hf
  | delete =>
    rw [Function.update_of_ne (similarKey_ne_indexKey _ _)] at hf
    exact hs _ _ hf
  | _ => exact hs _ _ hf

namespace Covered

variable {c : CacheConfig} {errands before behind : List Errand} {e e' : Errand}
  {s : Workshop Shelf} {after : Shelf}

/-- A stripe that some worker holds is taken. -/
theorem mem_taken (hc : Covered c errands s) (he : e ∈ errands) {i : ℕ} (hi : i ∈ e.held) :
    i ∈ s.taken := by
  rw [Workshop.taken, List.mem_flatMap, hc.busy]
  exact ⟨e.worker c, List.mem_map_of_mem he, by rwa [Errand.held_worker]⟩

theorem empty : Covered c [] ⟨[], [], fun _ => none⟩ where
  busy := rfl
  apart := .nil
  sound := by simp
  results := by simp
  covered := by simp [Shelf.ResultOf]

/-- What waits does not matter. -/
theorem waiting (hc : Covered c errands s) (ts : List IndexTask) :
    Covered c errands { s with waiting := ts } :=
  ⟨hc.busy, hc.apart, hc.sound, hc.results, hc.covered⟩

/-- A task that begins has no stripe yet. -/
theorem begins (hc : Covered c errands s) (t : IndexTask) :
    Covered c (errands ++ [.locking t 0])
      { s with busy := s.busy ++ [⟨t, t.job c, []⟩] } where
  busy := by simp [hc.busy, Errand.worker, IndexTask.job_eq]
  apart := by
    rw [List.pairwise_append]
    refine ⟨hc.apart, List.pairwise_singleton _ _, fun a _ b hb => ?_⟩
    rw [List.mem_singleton.1 hb]
    exact List.disjoint_nil_right a.held
  sound e he := by
    rcases List.mem_append.1 he with he | he
    · exact hc.sound e he
    · rw [List.mem_singleton.1 he]
      trivial
  results := hc.results
  covered id fingerprint hr := by
    rcases hc.covered id fingerprint hr with hl | ⟨e, he, ho⟩
    · exact .inl hl
    · exact .inr ⟨e, List.mem_append_left _ he, ho⟩

/-- A worker without stripes that leaves owes nothing. -/
theorem finishes (hc : Covered c (before ++ e :: behind) s) (he : e.held = []) :
    Covered c (before ++ behind) { s with busy := (before ++ behind).map (·.worker c) } where
  busy := rfl
  apart := (List.pairwise_cons.1 ((List.pairwise_middle List.Disjoint.symm).1 hc.apart)).2
  sound o ho := hc.sound o (mem_middle.2 (.inr ho))
  results := hc.results
  covered id fingerprint hr := by
    rcases hc.covered id fingerprint hr with hl | ⟨o, hmem, ho⟩
    · exact .inl hl
    · rcases mem_middle.1 hmem with rfl | hother
      · have hstripe := (hc.sound o hmem).stripe_mem ho
        rw [he] at hstripe
        cases hstripe
      · exact .inr ⟨o, hother, ho⟩

/-- What is owed under the stripes of a worker, the worker owes itself. -/
theorem own (hc : Covered c (before ++ e :: behind) s) (id : Int) (fingerprint : String)
    (hid : stripe id ∈ e.held) (hr : s.store.ResultOf id fingerprint) :
    fingerprint ∈ s.store.listed id ∨ e.Owes id fingerprint := by
  have hapart := (List.pairwise_cons.1
    ((List.pairwise_middle List.Disjoint.symm).1 hc.apart)).1
  rcases hc.covered id fingerprint hr with hl | ⟨o, hmem, ho⟩
  · exact .inl hl
  · rcases mem_middle.1 hmem with rfl | hother
    · exact .inr ho
    · exact (hapart o hother hid ((hc.sound o hmem).stripe_mem ho)).elim

/-- A step of one worker. -/
theorem works (hc : Covered c (before ++ e :: behind) s) (h : e.Step s.taken s.store e' after) :
    Covered c (before ++ e' :: behind)
      { s with busy := (before ++ e' :: behind).map (·.worker c), store := after } := by
  have hmem : e ∈ before ++ e :: behind := by simp
  have hothers : ∀ o ∈ before ++ behind, o ∈ before ++ e :: behind := fun o ho =>
    mem_middle.2 (.inr ho)
  obtain ⟨hapart, hrest⟩ :=
    List.pairwise_cons.1 ((List.pairwise_middle List.Disjoint.symm).1 hc.apart)
  have hsound : e.Sound s.store := hc.sound e hmem
  have hown := hc.own
  have hsound' : e'.Sound after := h.sound hsound hown
  have hapart' : ∀ o ∈ before ++ behind, e'.held.Disjoint o.held := by
    intro o ho i hi hio
    rcases h.held_mem hi with hi | hfree
    · exact hapart o ho hi hio
    · exact hfree (hc.mem_taken (hothers o ho) hio)
  refine ⟨rfl, ?_, ?_, h.results hc.results, ?_⟩
  · exact (List.pairwise_middle List.Disjoint.symm).2 (List.pairwise_cons.2 ⟨hapart', hrest⟩)
  · intro o ho
    rcases mem_middle.1 ho with rfl | hother
    · exact hsound'
    · refine (hc.sound o (hothers o hother)).frame ?_ ?_
      · exact fun id hid => h.listed_eq hsound fun hi => hapart o hother hi hid
      · intro id fingerprint hid hr
        refine (h.resultOf hr).resolve_right fun ho => ?_
        exact hapart' o hother (hsound'.stripe_mem ho) hid
  · intro id fingerprint hr
    have hnew : e' ∈ before ++ e' :: behind := by simp
    rcases h.resultOf hr with hold | ho
    · rcases hc.covered id fingerprint hold with hl | ⟨o, ho, howes⟩
      · exact .inl (h.listed_kept hsound hl hr)
      · rcases mem_middle.1 ho with rfl | hother
        · rcases h.owes hsound howes with hstill | hl
          · exact .inr ⟨e', hnew, hstill⟩
          · exact .inl hl
        · exact .inr ⟨o, mem_middle.2 (.inr hother), howes⟩
    · exact .inr ⟨e', hnew, ho⟩

/-- The invariant is kept by every step. -/
theorem step {workers : ℕ} {s' : Workshop Shelf} (hc : Covered c errands s)
    (h : s.Step c workers .steady False s') : ∃ errands', Covered c errands' s' := by
  cases h with
  | submit t => exact ⟨_, hc.waiting _⟩
  | @begin t later _ _ => exact ⟨_, (hc.waiting later).begins t⟩
  | @work before behind w w' after hb hs =>
    rw [hc.busy] at hb
    obtain ⟨before, e, behind, rfl, rfl, rfl, rfl⟩ := exists_middle_of_map hb
    obtain ⟨e', rfl, hstep⟩ := Errand.step_of_worker hs
    refine ⟨before ++ e' :: behind, ?_⟩
    simpa using hc.works hstep
  | @finish before behind w hb hd hh =>
    rw [hc.busy] at hb
    obtain ⟨before, e, behind, rfl, rfl, rfl, rfl⟩ := exists_middle_of_map hb
    rw [Errand.held_worker] at hh
    exact ⟨before ++ behind, by simpa using hc.finishes hh⟩

theorem of_reachable {workers : ℕ}
    (h : Workshop.Reachable c workers .steady False (fun _ => none) s) :
    ∃ errands, Covered c errands s := by
  induction h with
  | refl => exact ⟨[], empty⟩
  | tail _ hs ih =>
    obtain ⟨errands, hc⟩ := ih
    exact hc.step hs

end Covered

/-! ## Stores in which everything is listed -/

/-- Whether every kept result is the answer for a filter, and listed for the post
that was asked about and for each post that it contains. -/
def Shelf.Indexed (store : Shelf) : Prop :=
  ∀ fingerprint found, store (Namespace.similar.key fingerprint) = some found →
    ∃ f posts, found.IsResult fingerprint f posts ∧
      ∀ id, id = f.id ∨ (∃ p ∈ posts, p.id = id) → fingerprint ∈ store.listed id

/-- Whether a result is kept that is not listed for one of its posts. -/
def Shelf.Loses (store : Shelf) (f : SimilarityFilter) (posts : List Post) (id : Int) : Prop :=
  store (Namespace.similar.key (Fingerprint.of f.toJson)) =
      some ⟨(Json.ofList Post.toJson posts).encoded, .keep f posts⟩ ∧
    id ∈ contributors f posts ∧ Fingerprint.of f.toJson ∉ store.listed id

theorem Shelf.Loses.not_indexed {store : Shelf} {f : SimilarityFilter} {posts : List Post}
    {id : Int} (h : store.Loses f posts id) : ¬store.Indexed := by
  obtain ⟨hf, hid, hnot⟩ := h
  intro hindexed
  obtain ⟨f', posts', ⟨hfound, -⟩, hlisted⟩ := hindexed _ _ hf
  obtain ⟨rfl, rfl⟩ : f = f' ∧ posts = posts' := by simpa using congrArg Kept.writer hfound
  exact hnot (hlisted id (mem_contributors.1 hid))

/-- When nobody is at work, everything is listed. -/
theorem Covered.indexed {c : CacheConfig} {s : Workshop Shelf} (h : Covered c [] s) :
    s.store.Indexed := by
  intro fingerprint found hf
  obtain ⟨f, posts, hresult⟩ := h.results _ _ hf
  refine ⟨f, posts, hresult, fun id hid => ?_⟩
  have hr : s.store.ResultOf id fingerprint := by
    refine ⟨found, hf, ?_⟩
    rw [hresult.1]
    exact mem_contributors.2 hid
  exact (h.covered id fingerprint hr).resolve_right (by simp)

/-- A similarity cache submits the tasks of what it found and of what it is to
forget. Whatever the workers then do in whatever order: every result that is kept
is the answer for a filter, and as long as nobody holds the stripe of the post
that was asked about, or of a post that the result contains, the index entry of
that post lists the fingerprint. -/
theorem results_are_listed (c : CacheConfig) (workers : ℕ) :
    (∀ {m : Type → Type} [Monad m] (inner : SimilaritySource m) (layer : CacheLayer m),
      inner.Indexes layer c) ∧
    ∀ s : Workshop Shelf, s.Reachable c workers .steady False (fun _ => none) →
      ∀ fingerprint found, s.store (Namespace.similar.key fingerprint) = some found →
        ∃ f posts, found.IsResult fingerprint f posts ∧
          ∀ id, id = f.id ∨ (∃ p ∈ posts, p.id = id) → stripe id ∉ s.taken →
            fingerprint ∈ s.store.listed id := by
  refine ⟨fun inner layer => indexes inner layer c, fun s h fingerprint found hf => ?_⟩
  obtain ⟨errands, hc⟩ := Covered.of_reachable h
  obtain ⟨f, posts, hresult⟩ := hc.results _ _ hf
  refine ⟨f, posts, hresult, fun id hid hfree => ?_⟩
  have hr : s.store.ResultOf id fingerprint := by
    refine ⟨found, hf, ?_⟩
    rw [hresult.1]
    exact mem_contributors.2 hid
  rcases hc.covered id fingerprint hr with hl | ⟨e, he, ho⟩
  · exact hl
  · exact absurd (hc.mem_taken he ((hc.sound e he).stripe_mem ho)) hfree

/-- A photograph near another one. -/
def Post.neighbour : Post where
  id := 2
  title := "Harbour"
  author := "ada"
  permalink := "https://example.org/2"
  score := 1
  nsfw := false
  grayscale := true
  sprocket := false
  time := 1000
  images := ⟨⟨"a", 1, 1⟩, ⟨"a", 1, 1⟩, ⟨"a", 1, 1⟩, ⟨"a", 1, 1⟩⟩
  colors := []
  keywords := []

/-- The result for post 1 that has post 2 is kept, and listed for both. -/
theorem listed_for_neighbours :
    ∃ s : Workshop Shelf, ∃ found : Kept, s.Reachable {} 1 .steady False (fun _ => none) ∧
      found.IsResult (Fingerprint.of (SimilarityFilter.around 1).toJson) (.around 1)
        [.neighbour] ∧
      Fingerprint.of (SimilarityFilter.around 1).toJson ∈ s.store.listed 1 ∧
      Fingerprint.of (SimilarityFilter.around 1).toJson ∈ s.store.listed 2 := by
  have hstart : Workshop.Reachable {} 1 .steady False (fun _ => none) ⟨[], [], fun _ => none⟩ :=
    .refl
  obtain ⟨after, hr, hf⟩ := hstart.keeps (by decide) (.around 1) [.neighbour]
  obtain ⟨f, posts, ⟨hfound, -⟩, hlisted⟩ := (results_are_listed {} 1).2 _ hr _ _ hf
  obtain ⟨rfl, rfl⟩ : SimilarityFilter.around 1 = f ∧ [Post.neighbour] = posts := by
    simpa using congrArg Kept.writer hfound
  refine ⟨_, _, hr, ⟨rfl, rfl⟩, hlisted 1 (.inl rfl) List.not_mem_nil, ?_⟩
  exact hlisted 2 (.inr ⟨_, List.mem_cons_self, rfl⟩) List.not_mem_nil

end FilmCatalog
