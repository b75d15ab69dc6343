import FilmCatalog.Proofs.Text.Trim

/-!
# Authors as they are shown

A stored author is the mark and the name that is shown, so the name that is shown
determines it. Asking for that name gives the author back only if the name is a
handle: it is trimmed and has no mark of its own. A name that was given without
the mark always is one. One that was given with it is one unless a blank or a
second mark comes behind the mark.

Key definitions: `Author.Handle`, `Author.Regular`.
Key theorems: `Author.mark_shown`, `Author.stored_shown_eq_iff`, `Author.map_stored_shown`.
-/

namespace FilmCatalog

/-- Trimming makes no text longer. -/
theorem Text.length_trim_le (s : String) : (trim s).length ≤ s.length := by
  rw [← String.length_toList, ← String.length_toList, trim, String.toList_ofList, trimChars_eq]
  calc ((s.toList.dropWhile isBlank).rdropWhile isBlank).length
      ≤ (s.toList.dropWhile isBlank).length := (List.rdropWhile_prefix _ _).length_le
    _ ≤ s.toList.length := (List.dropWhile_sublist _).length_le

namespace Author

/-! ## The mark -/

theorem marked_mark_append (name : String) : Marked (mark ++ name) := by
  rw [Marked, String.toList_append]
  exact List.prefix_append _ _

@[simp] theorem shown_mark_append (name : String) : shown (mark ++ name) = name := by
  have hprefix : mark.toList.isPrefixOf (mark ++ name).toList = true :=
    List.isPrefixOf_iff_prefix.2 (marked_mark_append name)
  have hlength : mark.length = mark.toList.length := String.length_toList.symm
  rw [shown, if_pos hprefix, String.toList_append, hlength, List.drop_left, String.ofList_toList]

/-- An author with the mark is the mark and the name that is shown. -/
theorem mark_shown {author : String} (h : Marked author) : mark ++ shown author = author := by
  obtain ⟨rest, hrest⟩ := h
  obtain rfl : mark ++ String.ofList rest = author := by
    refine String.toList_injective ?_
    rw [String.toList_append, String.toList_ofList, hrest]
  rw [shown_mark_append]

/-- Authors with the mark are shown as different names. -/
theorem shown_inj {a b : String} (ha : Marked a) (hb : Marked b) : shown a = shown b ↔ a = b := by
  rw [← String.append_right_inj mark, mark_shown ha, mark_shown hb]

/-! ## Handles -/

/-- Whether a name is stored as it is behind the mark. -/
def Handle (name : String) : Prop := ¬Marked name ∧ Text.Trimmed name

/-- A name is stored behind the mark, nothing else changed, exactly if it is a handle. -/
theorem stored_eq_append_iff {name : String} : stored name = mark ++ name ↔ Handle name := by
  rw [stored_eq]
  constructor
  · intro h
    split at h
    · -- the mark of the name itself cannot make up for the one that is missing
      have hlength := congrArg String.length h
      have hle := Text.length_trim_le name
      have hmark : mark.length = 2 := by decide
      rw [String.length_append] at hlength
      omega
    · rename_i hmarked
      have htrim := (String.append_right_inj mark).1 h
      exact ⟨htrim ▸ hmarked, htrim ▸ Text.trimmed_trim name⟩
  · rintro ⟨hmarked, htrimmed⟩
    rw [Text.trim_eq_self htrimmed, if_neg hmarked]

/-- Whether a name, without its mark if it has one, is a handle. -/
def Regular (name : String) : Prop := ∀ rest, Text.trim name = mark ++ rest → Handle rest

theorem handle_shown_iff (name : String) : Handle (shown (stored name)) ↔ Regular name := by
  rw [stored_eq, Regular]
  split
  · rename_i hmarked
    constructor
    · intro h rest hrest
      rwa [hrest, shown_mark_append] at h
    · intro h
      exact h _ (mark_shown hmarked).symm
  · rename_i hmarked
    rw [shown_mark_append]
    refine ⟨fun _ rest hrest => absurd (hrest ▸ marked_mark_append rest) hmarked, fun _ => ?_⟩
    exact ⟨hmarked, Text.trimmed_trim name⟩

/-- What is shown of a name is stored as that name was exactly if it is regular. -/
theorem stored_shown_eq_iff (name : String) :
    stored (shown (stored name)) = stored name ↔ Regular name := by
  rw [← handle_shown_iff, ← stored_eq_append_iff, mark_shown (marked_stored name)]

/-! ## Names that are asked for -/

/-- Of a trimmed author with the mark nothing but blanks is shown only if there is
nothing behind the mark. -/
theorem blank_shown_iff {author : String} (hmarked : Marked author)
    (htrimmed : Text.Trimmed author) : Text.Blank (shown author) ↔ author = mark := by
  have hauthor := mark_shown hmarked
  constructor
  · intro hblank
    have hempty : (shown author).toList.getLast? = none := by
      rw [Option.eq_none_iff_forall_not_mem]
      intro c hc
      -- the last character that is shown is the last of the author, which is trimmed
      have hlast : c ∈ author.toList.getLast? := by
        rw [← hauthor, String.toList_append, List.getLast?_append, Option.mem_def.1 hc]
        rfl
      have hc' := hblank c (List.mem_of_getLast? hc)
      rw [htrimmed.2 c hlast] at hc'
      cases hc'
    rw [List.getLast?_eq_none_iff, String.toList_eq_nil_iff] at hempty
    rw [← hauthor, hempty, String.append_empty]
  · rintro rfl
    rw [← Text.trim_eq_empty_iff]
    decide

/-- A filter asks for no author if the name is blank. -/
theorem map_stored_nonBlank? (name : String) :
    (Text.nonBlank? name).map stored =
      if Text.trim name = "" then none else some (stored name) := by
  have hstored : stored (Text.trim name) = stored name := by
    rw [stored_eq, stored_eq, Text.trim_trim]
  by_cases h : Text.trim name = "" <;> simp [Text.nonBlank?, h, hstored]

/-- A filter asks for what is shown of a name unless that is nothing. -/
theorem map_stored_shown (name : String) :
    (Text.nonBlank? (shown (stored name))).map stored =
      if stored name = mark then none else some (stored (shown (stored name))) := by
  rw [map_stored_nonBlank?]
  refine if_congr ?_ rfl rfl
  rw [Text.trim_eq_empty_iff, blank_shown_iff (marked_stored name) (trimmed_stored name)]

end Author
end FilmCatalog
