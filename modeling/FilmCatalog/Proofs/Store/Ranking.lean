import FilmCatalog.Proofs.Filter.Similarity
import FilmCatalog.Store.Ranked
import FilmCatalog.Store.Table

/-!
# Similar posts come in the order of the ranking

An id of a ranking is among the nearest if fewer ids than the limit come before it,
each counted once and without those that are excluded (`SimilarityFilter.Nearest`).
The shortlist has exactly these, each at its place. So whatever order a reader gives
the posts of the shortlist in, putting them at the places of their ids puts them in
the order in which the ranking names them first.

Key definitions: `ahead`, `SimilarityFilter.place`, `SimilarityFilter.Nearest`,
`Post.HasFlags`, `PostReader.AnswersIds`.
Key theorems: `idxOf_eraseDups`, `SimilarityFilter.Normal.mem_shortlist_iff`,
`similar_posts_follow_ranking`.
-/

namespace FilmCatalog

/-! ## What comes before an element -/

section

variable {α : Type} [DecidableEq α]

/-- What comes before an element in a list. -/
def ahead (xs : List α) (a : α) : List α := xs.takeWhile (· ≠ a)

@[simp] theorem ahead_cons_self (a : α) (xs : List α) : ahead (a :: xs) a = [] := by
  simp [ahead]

theorem ahead_cons_ne {x a : α} (h : x ≠ a) (xs : List α) :
    ahead (x :: xs) a = x :: ahead xs a := by
  simp [ahead, h]

theorem not_mem_ahead (a : α) (xs : List α) : a ∉ ahead xs a := fun h => by
  simpa using List.mem_takeWhile_imp h

/-- Leaving out other elements leaves them out of what comes before. -/
theorem ahead_filter {p : α → Bool} {a : α} (h : p a = true) (xs : List α) :
    ahead (xs.filter p) a = (ahead xs a).filter p := by
  induction xs with
  | nil => rfl
  | cons x xs ih =>
    by_cases hx : x = a
    · subst hx
      rw [List.filter_cons_of_pos h, ahead_cons_self, ahead_cons_self, List.filter_nil]
    · rw [ahead_cons_ne hx]
      by_cases hp : p x = true
      · rw [List.filter_cons_of_pos hp, ahead_cons_ne hx, List.filter_cons_of_pos hp, ih]
      · rw [List.filter_cons_of_neg hp, List.filter_cons_of_neg hp, ih]

/-- Of two elements, one comes before the other or has nothing more before it. -/
theorem ahead_prefix_of_not_mem {a b : α} {xs : List α} (h : a ∉ ahead xs b) :
    ahead xs b <+: ahead xs a := by
  induction xs with
  | nil => exact List.prefix_rfl
  | cons x xs ih =>
    by_cases hb : x = b
    · subst hb
      rw [ahead_cons_self]
      exact List.nil_prefix
    · rw [ahead_cons_ne hb, List.mem_cons, not_or] at h
      rw [ahead_cons_ne hb, ahead_cons_ne (Ne.symm h.1), List.prefix_cons_inj]
      exact ih h.2

/-- In a list without repetitions an element stands behind as many elements as there
are different ones before it. -/
theorem idxOf_eraseDups (xs : List α) (a : α) :
    xs.eraseDups.idxOf a = (ahead xs a).toFinset.card := by
  match xs with
  | [] => simp [ahead]
  | x :: xs =>
    rw [List.eraseDups_cons]
    by_cases hx : x = a
    · subst hx
      rw [List.idxOf_cons_self, ahead_cons_self]
      rfl
    · -- the recursion goes on without `x`, which is counted once for all its places
      have ih := idxOf_eraseDups (xs.filter fun b => !b == x) a
      have hothers : (ahead (xs.filter fun b => !b == x) a).toFinset =
          (ahead xs a).toFinset.erase x := by
        rw [ahead_filter (by simpa using Ne.symm hx)]
        ext b
        simp [and_comm]
      rw [List.idxOf_cons_ne _ hx, ih, hothers, ahead_cons_ne hx, List.toFinset_cons,
        Finset.card_insert_eq_ite]
      split
      · rename_i hmem
        exact Finset.card_erase_add_one hmem
      · rename_i hmem
        rw [Finset.erase_eq_of_notMem hmem]
termination_by xs.length
decreasing_by exact Nat.lt_succ_of_le (List.length_filter_le _ _)

end

/-! ## Shortlists -/

namespace SimilarityFilter

/-- How many different ids that are not excluded a ranking names before an id. -/
def place (f : SimilarityFilter) (ranking : List Int) (id : Int) : ℕ :=
  ((ahead ranking id).toFinset \ f.excludeIds.toFinset).card

/-- Whether an id is among the first that a ranking names, the excluded ones left out. -/
def Nearest (f : SimilarityFilter) (ranking : List Int) (id : Int) : Prop :=
  id ∈ ranking ∧ id ∉ f.excludeIds ∧ (f.place ranking id : Int) < f.limit

instance (f : SimilarityFilter) (ranking : List Int) (id : Int) :
    Decidable (f.Nearest ranking id) :=
  inferInstanceAs (Decidable (_ ∧ _))

namespace Normal

variable {f : SimilarityFilter} (h : f.Normal) {ranking : List Int}

include h

theorem keeps_iff (id : Int) : (!f.excludes id) = true ↔ id ∉ f.excludeIds := by
  rw [← h.excludes_iff, Bool.not_eq_true', Bool.not_eq_true]

theorem idxOf_candidates {id : Int} (hid : id ∉ f.excludeIds) :
    (ranking.filter fun id => !f.excludes id).eraseDups.idxOf id = f.place ranking id := by
  rw [idxOf_eraseDups, ahead_filter (p := fun id => !f.excludes id) ((h.keeps_iff id).2 hid), place]
  congr 1
  ext other
  simp only [List.mem_toFinset, List.mem_filter, h.keeps_iff, Finset.mem_sdiff]

/-- The shortlist has exactly the nearest ids. -/
theorem mem_shortlist_iff {id : Int} : id ∈ f.shortlist ranking ↔ f.Nearest ranking id := by
  have hmem : id ∈ (ranking.filter fun id => !f.excludes id).eraseDups ↔
      id ∈ ranking ∧ id ∉ f.excludeIds := by
    rw [List.mem_eraseDups, List.mem_filter, h.keeps_iff]
  rw [shortlist, Nearest, ← and_assoc, ← hmem]
  constructor
  · intro hid
    have hcandidate := List.mem_of_mem_take hid
    rw [List.mem_take_iff_idxOf_lt hcandidate, h.idxOf_candidates (hmem.1 hcandidate).2] at hid
    exact ⟨hcandidate, by omega⟩
  · rintro ⟨hcandidate, hplace⟩
    rw [List.mem_take_iff_idxOf_lt hcandidate, h.idxOf_candidates (hmem.1 hcandidate).2]
    omega

/-- In the shortlist an id stands at its place. -/
theorem idxOf_shortlist {id : Int} (hid : f.Nearest ranking id) :
    (f.shortlist ranking).idxOf id = f.place ranking id := by
  have hmem : id ∈ f.shortlist ranking := h.mem_shortlist_iff.2 hid
  rw [← h.idxOf_candidates hid.2.1, shortlist]
  conv_rhs => rw [← List.take_append_drop f.limit.toNat (List.eraseDups _)]
  exact (List.idxOf_append_of_mem hmem).symm

/-- Different ids of the shortlist stand there as the ranking names them first. -/
theorem mem_ahead_of_idxOf_le {a b : Int} (ha : f.Nearest ranking a) (hb : f.Nearest ranking b)
    (hne : a ≠ b) (hle : (f.shortlist ranking).idxOf a ≤ (f.shortlist ranking).idxOf b) :
    a ∈ ahead ranking b := by
  by_contra hno
  -- else all that comes before `b` comes before `a`, so both stand at one place
  have hplaces : f.place ranking b ≤ f.place ranking a := by
    refine Finset.card_le_card (Finset.sdiff_subset_sdiff ?_ subset_rfl)
    intro id hid
    exact List.mem_toFinset.2 ((ahead_prefix_of_not_mem hno).subset (List.mem_toFinset.1 hid))
  rw [← h.idxOf_shortlist ha, ← h.idxOf_shortlist hb] at hplaces
  exact hne ((List.idxOf_inj (h.mem_shortlist_iff.2 ha)).1 (le_antisymm hle hplaces))

/-- If an id is left, the first one is among the nearest. -/
theorem shortlist_eq_nil_iff : f.shortlist ranking = [] ↔ ∀ id ∈ ranking, id ∈ f.excludeIds := by
  have hpos := h.limit_pos
  rw [shortlist, List.take_eq_nil_iff, or_iff_right (by omega), List.eq_nil_iff_forall_not_mem]
  refine forall_congr' fun id => ?_
  rw [List.mem_eraseDups, List.mem_filter, h.keeps_iff, not_and, not_not]

end Normal

end SimilarityFilter

/-! ## Posts -/

/-- Whether a post has the wanted flags. -/
def Post.HasFlags (nsfw grayscale sprocket : Option Bool) (p : Post) : Prop :=
  (∀ b ∈ nsfw, p.nsfw = b) ∧ (∀ b ∈ grayscale, p.grayscale = b) ∧ ∀ b ∈ sprocket, p.sprocket = b

instance (nsfw grayscale sprocket : Option Bool) (p : Post) :
    Decidable (p.HasFlags nsfw grayscale sprocket) :=
  inferInstanceAs (Decidable (_ ∧ _))

/-- Whether a reader has the stored posts in a state: it keeps one post under an id,
and asked for ids and flags it answers with exactly the stored posts that have them,
each once, in an order of its own. -/
structure PostReader.AnswersIds {σ : Type} (posts : PostReader (StateM σ)) (s : σ)
    (stored : List Post) : Prop where
  eq_of_id : ∀ p ∈ stored, ∀ q ∈ stored, p.id = q.id → p = q
  answers : ∀ (ids : List Int) (nsfw grayscale sprocket : Option Bool), ∃ page s',
    (posts.findPosts ((PostFilter.byIds ids).withFlags nsfw grayscale sprocket)).run.run s =
        (.ok page, s') ∧
      page.posts.Nodup ∧
      ∀ p, p ∈ page.posts ↔ p ∈ stored ∧ p.id ∈ ids ∧ p.HasFlags nsfw grayscale sprocket

theorem inRankOrder_perm (ids : List Int) (posts : List Post) :
    (inRankOrder ids posts).Perm posts :=
  List.mergeSort_perm posts _

theorem mem_inRankOrder {ids : List Int} {posts : List Post} {p : Post} :
    p ∈ inRankOrder ids posts ↔ p ∈ posts := (inRankOrder_perm ids posts).mem_iff

theorem pairwise_inRankOrder (ids : List Int) (posts : List Post) :
    (inRankOrder ids posts).Pairwise fun p q => ids.idxOf p.id ≤ ids.idxOf q.id := by
  refine (List.pairwise_mergeSort ?_ ?_ posts).imp fun h => of_decide_eq_true h
  · intro p q r hpq hqr
    exact decide_eq_true (le_trans (of_decide_eq_true hpq) (of_decide_eq_true hqr))
  · intro p q
    simpa using le_total (ids.idxOf p.id) (ids.idxOf q.id)

section

variable {f : SimilarityFilter} (h : f.Normal) {ranking : List Int} {posts : List Post}

include h

/-- Posts at the places of their ids are in the order of the ranking. -/
theorem pairwise_ahead (hids : ∀ p ∈ posts, f.Nearest ranking p.id)
    (hdistinct : (posts.map (·.id)).Nodup) :
    (inRankOrder (f.shortlist ranking) posts).Pairwise fun p q => p.id ∈ ahead ranking q.id := by
  have hnodup : (inRankOrder (f.shortlist ranking) posts).Pairwise fun p q => p.id ≠ q.id :=
    List.pairwise_map.1 (((inRankOrder_perm _ posts).map Post.id).nodup_iff.2 hdistinct)
  refine ((pairwise_inRankOrder _ posts).and hnodup).imp_of_mem fun {p q} hp hq hpq => ?_
  exact h.mem_ahead_of_idxOf_le (hids p (mem_inRankOrder.1 hp)) (hids q (mem_inRankOrder.1 hq))
    hpq.2 hpq.1

/-- Posts in the order of the ranking are different and no more than the limit. -/
theorem distinct_of_pairwise_ahead (hids : ∀ p ∈ posts, f.Nearest ranking p.id)
    (horder : posts.Pairwise fun p q => p.id ∈ ahead ranking q.id) :
    (posts.map (·.id)).Nodup ∧ (posts.length : Int) ≤ f.limit := by
  have hdistinct : (posts.map (·.id)).Nodup := by
    refine List.pairwise_map.2 (horder.imp fun {p q} hpq heq => ?_)
    exact not_mem_ahead q.id ranking (heq ▸ hpq)
  have hsubset : posts.map (·.id) ⊆ f.shortlist ranking := by
    intro id hid
    obtain ⟨p, hp, rfl⟩ := List.mem_map.1 hid
    exact h.mem_shortlist_iff.2 (hids p hp)
  have hlength := (hdistinct.length_le_of_subset hsubset).trans (List.length_take_le _ _)
  have hpos := h.limit_pos
  rw [List.length_map] at hlength
  exact ⟨hdistinct, by omega⟩

end

/-! ## The source -/

section

variable {σ : Type} {index : VectorIndex (StateM σ)} {posts : PostReader (StateM σ)}
  {f : SimilarityFilter} {s s' : σ} {ranking : List Int}

/-- Without an id on the shortlist the posts are not asked for. -/
theorem run_findSimilar_of_nil (h : (index.nearest f).run.run s = (.ok ranking, s'))
    (hnil : f.shortlist ranking = []) :
    ((SimilaritySource.ranked index posts).findSimilar f).run.run s = (.ok [], s') := by
  simp only [SimilaritySource.ranked, ExceptT.run_bind, StateT.run_bind, h]
  change ((if (f.shortlist ranking).isEmpty then pure [] else _ :
    ExceptT StoreError (StateM σ) (List Post))).run.run s' = _
  rw [hnil]
  rfl

/-- With one, the posts of the shortlist are asked for and put in its order. -/
theorem run_findSimilar {s'' : σ} {page : PostPage}
    (h : (index.nearest f).run.run s = (.ok ranking, s')) (hcons : f.shortlist ranking ≠ [])
    (hpage : (posts.findPosts (f.hydration (f.shortlist ranking))).run.run s' = (.ok page, s'')) :
    ((SimilaritySource.ranked index posts).findSimilar f).run.run s =
      (.ok (inRankOrder (f.shortlist ranking) page.posts), s'') := by
  simp only [SimilaritySource.ranked, ExceptT.run_bind, StateT.run_bind, h]
  change ((if (f.shortlist ranking).isEmpty then pure [] else _ :
    ExceptT StoreError (StateM σ) (List Post))).run.run s' = _
  rw [if_neg (by simpa using hcons)]
  simp only [ExceptT.run_bind, StateT.run_bind, hpage]
  rfl

end

/-- Similar posts are the stored posts with the wanted flags whose ids are among the
nearest, in the order in which the ranking names them first. So neither the post
that is asked about nor an excluded one is among them, no post comes twice, and there
are at most as many as the limit. If no id is left, no reader of posts is asked. -/
theorem similar_posts_follow_ranking {σ : Type} {index : VectorIndex (StateM σ)}
    {posts : PostReader (StateM σ)} {f : SimilarityFilter} (hf : f.Constructed) {s s' : σ}
    {ranking : List Int} (hindex : (index.nearest f).run.run s = (.ok ranking, s'))
    {stored : List Post} (hposts : posts.AnswersIds s' stored) :
    (∃ found s'',
      ((SimilaritySource.ranked index posts).findSimilar f).run.run s = (.ok found, s'') ∧
      (∀ p, p ∈ found ↔
        p ∈ stored ∧ p.HasFlags f.nsfw f.grayscale f.sprocket ∧ f.Nearest ranking p.id) ∧
      found.Pairwise (fun p q => p.id ∈ ahead ranking q.id) ∧
      (∀ p ∈ found, p.id ≠ f.id ∧ p.id ∉ f.excludeIds) ∧
      (found.map (·.id)).Nodup ∧ (found.length : Int) ≤ f.limit) ∧
    ((∀ id ∈ ranking, id ∈ f.excludeIds) → ∀ other : PostReader (StateM σ),
      ((SimilaritySource.ranked index other).findSimilar f).run.run s = (.ok [], s')) := by
  have h := hf.normal
  obtain ⟨answer, s'', hrun, hnodup, hanswer⟩ : ∃ answer s'',
      ((SimilaritySource.ranked index posts).findSimilar f).run.run s =
          (.ok (inRankOrder (f.shortlist ranking) answer), s'') ∧ answer.Nodup ∧
        ∀ p, p ∈ answer ↔ p ∈ stored ∧ p.id ∈ f.shortlist ranking ∧
          p.HasFlags f.nsfw f.grayscale f.sprocket := by
    by_cases hnil : f.shortlist ranking = []
    · -- nothing is asked, and no stored post has an id on the empty shortlist
      refine ⟨[], s', ?_, .nil, by simp [hnil]⟩
      rw [run_findSimilar_of_nil hindex hnil, inRankOrder, List.mergeSort_nil]
    · obtain ⟨page, s'', hpage, hanswer⟩ :=
        hposts.answers (f.shortlist ranking) f.nsfw f.grayscale f.sprocket
      exact ⟨page.posts, s'', run_findSimilar hindex hnil hpage, hanswer⟩
  have hmem : ∀ p, p ∈ inRankOrder (f.shortlist ranking) answer ↔
      p ∈ stored ∧ p.HasFlags f.nsfw f.grayscale f.sprocket ∧ f.Nearest ranking p.id := by
    intro p
    rw [mem_inRankOrder, hanswer, h.mem_shortlist_iff, and_comm (a := f.Nearest ranking p.id)]
  have hids : ∀ p ∈ inRankOrder (f.shortlist ranking) answer, f.Nearest ranking p.id :=
    fun p hp => ((hmem p).1 hp).2.2
  have hdistinct : (answer.map (·.id)).Nodup := by
    refine List.Nodup.map_on (fun p hp q hq => ?_) hnodup
    exact hposts.eq_of_id p ((hanswer p).1 hp).1 q ((hanswer q).1 hq).1
  have horder := pairwise_ahead h (fun p hp => hids p (mem_inRankOrder.2 hp)) hdistinct
  refine ⟨⟨_, s'', hrun, hmem, horder, fun p hp => ?_, distinct_of_pairwise_ahead h hids horder⟩,
    fun hall other => run_findSimilar_of_nil hindex (h.shortlist_eq_nil_iff.2 hall)⟩
  have hexcluded := (hids p hp).2.1
  exact ⟨fun heq => hexcluded (heq ▸ h.id_excluded), hexcluded⟩

/-! ## Posts in memory -/

namespace PostTable

theorem flagFits_iff {wanted : Option Bool} {b : Bool} :
    flagFits wanted b = true ↔ ∀ w ∈ wanted, b = w := by
  cases wanted with
  | none => simp [flagFits]
  | some w => simpa [flagFits] using eq_comm

/-- An operation that was not told to fail is carried out once it is recorded. -/
theorem run_operation {α : Type} {call : StoreCall}
    {act : PostTable → Except StoreError α × PostTable} {t : PostTable}
    (h : t.faults.lookup call.op = none) :
    (operation call act).run.run t = act { t with calls := call :: t.calls } := by
  simp only [operation, ExceptT.run, StateT.run, h]

/-- A table that was not told to fail and keeps one post under an id answers as a
reader of posts should. -/
theorem answersIds {t : PostTable} (hfault : t.faults.lookup .findPosts = none)
    (hids : (t.posts.map (·.id)).Nodup) : reader.AnswersIds t t.posts where
  eq_of_id p hp q hq h := List.inj_on_of_nodup_map hids hp hq h
  answers ids nsfw grayscale sprocket := by
    let f : PostFilter := (PostFilter.byIds ids).withFlags nsfw grayscale sprocket
    let t' : PostTable := { t with calls := .findPosts f :: t.calls }
    have hrun : (reader.findPosts f).run.run t = (.ok (t'.select f), t') := run_operation hfault
    refine ⟨t'.select f, t', hrun, ?_, fun p => ?_⟩
    · exact (List.mergeSort_perm _ _).nodup_iff.2 ((List.Nodup.of_map _ hids).filter _)
    · change p ∈ (t.posts.filter (fits f)).mergeSort (before f) ↔ _
      rw [(List.mergeSort_perm _ _).mem_iff, List.mem_filter]
      simp [fits, f, flagFits_iff, PostFilter.byIds, PostFilter.withFlags, PostFilter.everything,
        mem_idSet, Post.HasFlags, and_assoc]

/-- A post of a table, its images without an address. -/
def plainPost (id : Int) (nsfw : Bool) : Post where
  id := id
  title := ""
  author := ""
  permalink := ""
  score := 0
  nsfw := nsfw
  grayscale := false
  sprocket := false
  time := id
  images := ⟨⟨"", 1, 1⟩, ⟨"", 1, 1⟩, ⟨"", 1, 1⟩, ⟨"", 1, 1⟩⟩
  colors := []
  keywords := []

/-- Five posts, one of them with other flags, and a ranking around the first that
repeats ids, names a post that is not there and ends with the first itself. -/
def ranked : PostTable where
  posts := [plainPost 1 false, plainPost 2 false, plainPost 3 false, plainPost 4 true,
    plainPost 5 false]
  rankings := [(1, [4, 3, 6, 4, 2, 3, 5, 1])]
  summary := []
  faults := []
  calls := []

end PostTable

/-- At most three of the posts nearest to the first one, but not the sixth. -/
def SimilarityFilter.threeNearest : SimilarityFilter :=
  (((SimilarityFilter.around 1).withLimit 3).excluding [6]).withFlags (some false) none none

theorem three_nearest_follow_ranking :
    SimilarityFilter.threeNearest.Constructed ∧ ∃ found s',
      ((SimilaritySource.ranked PostTable.index PostTable.reader).findSimilar
        .threeNearest).run.run .ranked = (.ok found, s') ∧
      PostTable.plainPost 3 false ∈ found ∧ PostTable.plainPost 2 false ∈ found ∧
      PostTable.plainPost 4 true ∉ found ∧ PostTable.plainPost 5 false ∉ found ∧
      PostTable.plainPost 1 false ∉ found := by
  have hf : SimilarityFilter.threeNearest.Constructed :=
    (((SimilarityFilter.Constructed.around 1).withLimit 3).excluding [6]).withFlags _ _ _
  have hindex : (PostTable.index.nearest .threeNearest).run.run .ranked =
      (.ok [4, 3, 6, 4, 2, 3, 5, 1],
        { PostTable.ranked with calls := [.nearest .threeNearest] }) := rfl
  obtain ⟨⟨found, s', hrun, hmem, -⟩, -⟩ :=
    similar_posts_follow_ranking hf hindex (PostTable.answersIds rfl (by decide))
  have hexcluded : SimilarityFilter.threeNearest.excludeIds = [1, 6] := by cbv
  refine ⟨hf, found, s', hrun, ?_⟩
  simp only [hmem, SimilarityFilter.Nearest, SimilarityFilter.place, hexcluded]
  decide

end FilmCatalog
