import FilmCatalog.Cache.Key
import FilmCatalog.Proofs.Filter.Similarity

/-!
# What a similarity filter excludes

A similarity filter is made around a post and then changed, one change after the
other. Whatever the changes are, it excludes exactly the post that it is about and
the ids that some change names, and it keeps them in the one list that stands for
this set. So two histories whose other changes are the same lead to one filter, and
to one fingerprint, exactly when they name the same ids besides the post itself; in
which order, in how many changes and how often does not matter.

Key definitions: `SimilarityFilter.Change`, `SimilarityFilter.after`,
`SimilarityFilter.plain`, `SimilarityFilter.Names`.
Key theorems: `SimilarityFilter.mem_after`, `SimilarityFilter.bare_after`,
`SimilarityFilter.excludes_what_was_named`.
-/

namespace FilmCatalog.SimilarityFilter

/-- A change of a similarity filter. -/
inductive Change where
  | limit (limit : ℤ)
  | maxLimit (max : ℤ)
  | flags (nsfw grayscale sprocket : Option Bool)
  | exclusion (ids : List ℤ)
  deriving DecidableEq

/-- Whether a change excludes ids; the others leave the excluded ids alone. -/
def Change.isExclusion : Change → Bool
  | .exclusion _ => true
  | _ => false

/-- The filter after a change. -/
def changed (f : SimilarityFilter) : Change → SimilarityFilter
  | .limit limit => f.withLimit limit
  | .maxLimit max => f.withMaxLimit max
  | .flags nsfw grayscale sprocket => f.withFlags nsfw grayscale sprocket
  | .exclusion ids => f.excluding ids

/-- The filter after changes, the first first. -/
def after (f : SimilarityFilter) (changes : List Change) : SimilarityFilter :=
  changes.foldl changed f

/-- The changes that exclude nothing, in their order. -/
def plain (changes : List Change) : List Change := changes.filter fun c => !c.isExclusion

/-- Whether some change excludes an id. -/
def Names (changes : List Change) (x : ℤ) : Prop := ∃ ids, .exclusion ids ∈ changes ∧ x ∈ ids

variable {f : SimilarityFilter}

theorem Constructed.changed (h : f.Constructed) : ∀ c : Change, (f.changed c).Constructed
  | .limit limit => h.withLimit limit
  | .maxLimit max => h.withMaxLimit max
  | .flags nsfw grayscale sprocket => h.withFlags nsfw grayscale sprocket
  | .exclusion ids => h.excluding ids

theorem Constructed.after (h : f.Constructed) (changes : List Change) :
    (f.after changes).Constructed := by
  induction changes generalizing f with
  | nil => exact h
  | cons c rest ih => exact ih (h.changed c)

/-! ## The excluded ids -/

/-- A change of another kind leaves the excluded ids, one of this kind adds what it names. -/
theorem mem_changed (h : f.Normal) (c : Change) (x : ℤ) :
    x ∈ (f.changed c).excludeIds ↔ x ∈ f.excludeIds ∨ ∃ ids, c = .exclusion ids ∧ x ∈ ids := by
  cases c with
  | limit limit => by_cases hpos : 0 < limit <;> simp [changed, withLimit, hpos]
  | maxLimit max => by_cases hpos : 0 < max <;> simp [changed, withMaxLimit, hpos]
  | flags nsfw grayscale sprocket => simp [changed, withFlags]
  | exclusion ids =>
    -- the post itself is put in once more, but it is there already
    have hself : x = f.id → x ∈ f.excludeIds := fun hx => hx ▸ h.id_excluded
    simp only [changed, excluding, mem_idSet, List.mem_append, List.mem_singleton,
      Change.exclusion.injEq, exists_eq_left']
    tauto

/-- Exactly those ids are excluded that were so before or that a change names. -/
theorem mem_after (h : f.Constructed) (changes : List Change) (x : ℤ) :
    x ∈ (f.after changes).excludeIds ↔ x ∈ f.excludeIds ∨ Names changes x := by
  induction changes generalizing f with
  | nil => simp [after, Names]
  | cons c rest ih =>
    rw [after, List.foldl_cons, ← after, ih (h.changed c), mem_changed h.normal, or_assoc]
    refine or_congr_right ?_
    simp only [Names, List.mem_cons, or_and_right, exists_or, eq_comm]

/-! ## The rest of the filter -/

/-- The filter without its excluded ids. -/
def bare (f : SimilarityFilter) : SimilarityFilter := { f with excludeIds := [] }

theorem eq_of_bare {g : SimilarityFilter} (hbare : f.bare = g.bare)
    (hids : f.excludeIds = g.excludeIds) : f = g := by
  cases f
  cases g
  simp_all [bare]

/-- A change that excludes nothing does the same whatever is excluded, and one that
excludes ids changes nothing else. -/
theorem bare_changed (c : Change) :
    (f.changed c).bare = if c.isExclusion then f.bare else f.bare.changed c := by
  cases c with
  | limit limit =>
    by_cases hpos : 0 < limit <;> simp [changed, withLimit, bare, Change.isExclusion, hpos]
  | maxLimit max =>
    by_cases hpos : 0 < max <;> simp [changed, withMaxLimit, bare, Change.isExclusion, hpos]
  | flags nsfw grayscale sprocket => rfl
  | exclusion ids => rfl

/-- All but the excluded ids comes from the other changes, in their order. -/
theorem bare_after (changes : List Change) :
    (f.after changes).bare = f.bare.after (plain changes) := by
  induction changes generalizing f with
  | nil => rfl
  | cons c rest ih =>
    rw [after, List.foldl_cons, ← after, ih, bare_changed]
    by_cases hc : c.isExclusion = true
    · simp [plain, hc]
    · simp [plain, hc, after]

/-! ## Histories -/

/-- Two histories with the same changes of the other kinds lead to one filter exactly
if they name the same ids besides the post itself. -/
theorem after_eq_after_iff {id : ℤ} {changes others : List Change}
    (hrest : plain others = plain changes) :
    (around id).after others = (around id).after changes ↔
      ∀ x, x ≠ id → (Names others x ↔ Names changes x) := by
  have hmem : ∀ (cs : List Change) x, x ∈ ((around id).after cs).excludeIds ↔ x = id ∨ Names cs x :=
    fun cs x => (mem_after (.around id) cs x).trans (or_congr_left List.mem_singleton)
  constructor
  · intro h x hx
    have := (hmem others x).symm.trans (h ▸ hmem changes x)
    simpa [hx] using this
  · intro h
    have hascending : ∀ cs, ((around id).after cs).excludeIds.Pairwise (· < ·) :=
      fun cs => ((Constructed.around id).after cs).normal.excludes_ascending
    refine eq_of_bare (by rw [bare_after, bare_after, hrest])
      ((hascending others).eq_of_mem_iff (hascending changes) fun x => ?_)
    rw [hmem, hmem]
    by_cases hx : x = id
    · simp [hx]
    · simp [hx, h x hx]

/-- However a similarity filter was changed, its limit is positive, its excluded ids
are strictly ascending with the post itself among them, and it excludes that post and
what was named, nothing else. With the other changes fixed, the filter, and with it
the fingerprint, depends only on the set of ids that were named. -/
theorem excludes_what_was_named (id : ℤ) (changes : List Change) :
    0 < ((around id).after changes).limit ∧
      ((around id).after changes).excludeIds.Pairwise (· < ·) ∧
      id ∈ ((around id).after changes).excludeIds ∧
      (∀ x, ((around id).after changes).excludes x = true ↔ x = id ∨ Names changes x) ∧
      ∀ others : List Change, plain others = plain changes →
        ((around id).after others = (around id).after changes ↔
          ∀ x, x ≠ id → (Names others x ↔ Names changes x)) ∧
        ((∀ x, x ≠ id → (Names others x ↔ Names changes x)) →
          Fingerprint.of ((around id).after others).toJson =
            Fingerprint.of ((around id).after changes).toJson) := by
  have hconstructed := (Constructed.around id).after changes
  refine ⟨hconstructed.normal.limit_pos, hconstructed.normal.excludes_ascending,
    (mem_after (.around id) changes id).2 (.inl (List.mem_singleton_self id)), fun x => ?_,
    fun others hrest => ⟨after_eq_after_iff hrest, fun h => ?_⟩⟩
  · rw [hconstructed.normal.excludes_iff, mem_after (.around id)]
    exact or_congr_left List.mem_singleton
  · rw [(after_eq_after_iff hrest).2 h]

/-- Ids in another order, in other portions and repeated, the post itself among them. -/
theorem portions_make_no_difference :
    let changes : List Change := [.exclusion [9, 2], .limit 5, .exclusion [2, 7], .maxLimit 3]
    let others : List Change := [.limit 5, .maxLimit 3, .exclusion [7, 7, 4, 9, 2]]
    plain others = plain changes ∧
      (around 4).after others = (around 4).after changes ∧
      ((around 4).after changes).limit = 3 ∧
      (∀ x, ((around 4).after changes).excludes x = true ↔ x = 4 ∨ x = 9 ∨ x = 2 ∨ x = 7) ∧
      Fingerprint.of ((around 4).after others).toJson =
        Fingerprint.of ((around 4).after changes).toJson := by
  intro changes others
  have hrest : plain others = plain changes := by decide
  have hnames : ∀ x, x ≠ 4 → (Names others x ↔ Names changes x) := by
    intro x hx
    simp [Names, others, changes]
    omega
  obtain ⟨-, -, -, hexcludes, h⟩ := excludes_what_was_named 4 changes
  refine ⟨hrest, (h others hrest).1.2 hnames, by decide, fun x => ?_, (h others hrest).2 hnames⟩
  rw [hexcludes]
  simp [Names, changes]
  omega

end FilmCatalog.SimilarityFilter
