import FilmCatalog.Filter.Similarity
import FilmCatalog.Proofs.Filter.Normal

/-!
# Similarity filters as they are made

However a similarity filter is made and changed, its limit is positive, its excluded
ids are strictly ascending, and the post that it is about is among them. Halving
finds exactly what is in an ascending array: an element that is there stays in the
range that is left (`SimilarityFilter.searchBetween_iff`).

Key definitions: `SimilarityFilter.Constructed`, `SimilarityFilter.Normal`.
Key theorems: `SimilarityFilter.Constructed.normal`, `SimilarityFilter.Normal.excludes_iff`.
-/

namespace FilmCatalog.SimilarityFilter

/-! ## Search by halving -/

section

variable {xs : Array Int} (hs : xs.toList.Pairwise (· < ·))

include hs

theorem lt_of_index_lt {i j : ℕ} {x y : Int} (hi : xs[i]? = some x) (hj : xs[j]? = some y)
    (h : i < j) : x < y := by
  obtain ⟨hi', rfl⟩ := Array.getElem?_eq_some_iff.1 hi
  obtain ⟨hj', rfl⟩ := Array.getElem?_eq_some_iff.1 hj
  exact List.pairwise_iff_getElem.1 hs i j hi' hj' h

/-- The search finds exactly the elements in its range, if it may halve the range
until nothing is left. -/
theorem searchBetween_iff {x : Int} {fuel low high : ℕ} (hfuel : high - low < fuel)
    (hhigh : high ≤ xs.size) :
    searchBetween xs x fuel low high = true ↔ ∃ i, low ≤ i ∧ i < high ∧ xs[i]? = some x := by
  induction fuel generalizing low high with
  | zero => omega
  | succ fuel ih =>
    rw [searchBetween]
    by_cases hlow : low < high
    · have hmiddle : low + (high - low) / 2 < high := by omega
      obtain ⟨y, hy⟩ : ∃ y, xs[low + (high - low) / 2]? = some y :=
        ⟨_, Array.getElem?_eq_getElem (by omega)⟩
      simp only [if_pos hlow, hy]
      rcases lt_trichotomy y x with hlt | rfl | hgt
      · -- what is there comes behind the middle
        rw [if_neg hlt.ne, if_pos hlt, ih (by omega) hhigh]
        refine exists_congr fun i => ⟨fun h => ⟨by omega, h.2⟩, fun h => ⟨?_, h.2⟩⟩
        by_contra hi
        rcases (by omega : i ≤ low + (high - low) / 2).lt_or_eq with hi' | rfl
        · exact absurd (lt_of_index_lt hs h.2.2 hy hi') (by omega)
        · exact hlt.ne (Option.some.inj (hy.symm.trans h.2.2))
      · rw [if_pos rfl]
        exact iff_of_true rfl ⟨_, by omega, hmiddle, hy⟩
      · -- what is there comes before the middle
        rw [if_neg hgt.ne', if_neg (by omega), ih (by omega) (by omega)]
        refine exists_congr fun i => ⟨fun h => ⟨h.1, by omega, h.2.2⟩, fun h => ⟨h.1, ?_, h.2.2⟩⟩
        by_contra hi
        rcases (by omega : low + (high - low) / 2 ≤ i).lt_or_eq with hi' | rfl
        · exact absurd (lt_of_index_lt hs hy h.2.2 hi') (by omega)
        · exact hgt.ne' (Option.some.inj (hy.symm.trans h.2.2))
    · rw [if_neg hlow]
      exact iff_of_false (by decide) fun ⟨i, hle, hlt, _⟩ => hlow (by omega)

end

/-! ## Filters -/

/-- The similarity filters that can be constructed. -/
inductive Constructed : SimilarityFilter → Prop where
  | around (id : Int) : Constructed (.around id)
  | withLimit {f : SimilarityFilter} (h : Constructed f) (limit : Int) :
      Constructed (f.withLimit limit)
  | withMaxLimit {f : SimilarityFilter} (h : Constructed f) (max : Int) :
      Constructed (f.withMaxLimit max)
  | withFlags {f : SimilarityFilter} (h : Constructed f) (nsfw grayscale sprocket : Option Bool) :
      Constructed (f.withFlags nsfw grayscale sprocket)
  | excluding {f : SimilarityFilter} (h : Constructed f) (ids : List Int) :
      Constructed (f.excluding ids)

/-- Whether a similarity filter is in normal form. -/
structure Normal (f : SimilarityFilter) : Prop where
  limit_pos : 0 < f.limit
  excludes_ascending : f.excludeIds.Pairwise (· < ·)
  id_excluded : f.id ∈ f.excludeIds

theorem Constructed.normal {f : SimilarityFilter} (h : f.Constructed) : f.Normal := by
  induction h with
  | around id =>
    exact ⟨(by decide : 0 < defaultSimilarLimit), List.pairwise_singleton _ _,
      List.mem_singleton_self id⟩
  | @withLimit f _ limit ih =>
    rw [SimilarityFilter.withLimit]
    split
    · rename_i hpos
      exact { ih with limit_pos := hpos }
    · exact ih
  | @withMaxLimit f _ max ih =>
    rw [SimilarityFilter.withMaxLimit]
    split
    · rename_i hpos
      exact { ih with limit_pos := lt_min ih.limit_pos hpos }
    · exact ih
  | withFlags _ _ _ _ ih => exact { ih with }
  | excluding _ ids ih =>
    exact ⟨ih.limit_pos, idSet_ascending _, mem_idSet.2 (by simp [SimilarityFilter.excluding])⟩

/-- The search decides whether a post is excluded. -/
theorem Normal.excludes_iff {f : SimilarityFilter} (h : f.Normal) (id : Int) :
    f.excludes id = true ↔ id ∈ f.excludeIds := by
  rw [excludes, searchBetween_iff (by simpa using h.excludes_ascending) (by omega) le_rfl,
    List.mem_iff_getElem?]
  refine exists_congr fun i => ?_
  rw [List.getElem?_toArray, List.size_toArray]
  exact ⟨fun hi => hi.2.2, fun hi => ⟨Nat.zero_le i, (List.getElem?_eq_some_iff.1 hi).1, hi⟩⟩

end FilmCatalog.SimilarityFilter
