import FilmCatalog.Post.Author
import Mathlib

/-!
# Trimmed texts

Trimming leaves no blank character at either end and changes nothing else, so a
trimmed text is left as it is. A text that is not blank has something left of
it: a neat text.

Key definitions: `Text.Trimmed`, `Text.Neat`.
Key theorems: `Text.trimmed_trim`, `Text.trim_eq_self`, `Text.nonBlank?_eq_some_iff`,
`Author.marked_stored`.
-/

namespace FilmCatalog

namespace Text

/-- Whether a text has no blank character at its ends. -/
def Trimmed (s : String) : Prop :=
  (∀ c ∈ s.toList.head?, isBlank c = false) ∧ ∀ c ∈ s.toList.getLast?, isBlank c = false

/-- Whether every character of a text is blank. -/
def Blank (s : String) : Prop := ∀ c ∈ s.toList, isBlank c = true

/-- Whether a text is trimmed and has a character that is not blank. -/
def Neat (s : String) : Prop := Trimmed s ∧ ¬Blank s

theorem trimChars_eq (cs : List Char) :
    trimChars cs = (cs.dropWhile isBlank).rdropWhile isBlank := rfl

theorem head?_dropWhile {cs : List Char} {c : Char} (h : c ∈ (cs.dropWhile isBlank).head?) :
    isBlank c = false := by
  have hhead := List.head?_dropWhile_not isBlank cs
  rw [Option.mem_def.1 h] at hhead
  exact hhead

/-- What is left at the front by cutting from the back is what was there. -/
theorem mem_head?_mono {cs ds : List Char} (h : cs <+: ds) {c : Char} (hc : c ∈ cs.head?) :
    c ∈ ds.head? := by
  obtain ⟨rest, rfl⟩ := h
  cases cs with
  | nil => cases hc
  | cons d cs => exact hc

theorem trimmed_trim (s : String) : Trimmed (trim s) := by
  rw [Trimmed, trim, String.toList_ofList]
  constructor
  · intro c hc
    rw [trimChars_eq] at hc
    exact head?_dropWhile (mem_head?_mono (List.rdropWhile_prefix _ _) hc)
  · intro c hc
    rw [trimChars, List.getLast?_reverse] at hc
    exact head?_dropWhile hc

theorem dropWhile_eq_self {cs : List Char} (h : ∀ c ∈ cs.head?, isBlank c = false) :
    cs.dropWhile isBlank = cs := by
  cases cs with
  | nil => rfl
  | cons c cs =>
    have hc : isBlank c = false := h c rfl
    rw [List.dropWhile_cons_of_neg (by simp [hc])]

/-- A trimmed text is left as it is. -/
theorem trim_eq_self {s : String} (h : Trimmed s) : trim s = s := by
  have hback : s.toList.reverse.dropWhile isBlank = s.toList.reverse :=
    dropWhile_eq_self fun c hc => h.2 c (by rwa [List.head?_reverse] at hc)
  rw [trim, trimChars, dropWhile_eq_self h.1, hback, List.reverse_reverse, String.ofList_toList]

@[simp] theorem trim_trim (s : String) : trim (trim s) = trim s := trim_eq_self (trimmed_trim s)

/-- Nothing is left of a blank text. -/
theorem trim_eq_empty_iff {s : String} : trim s = "" ↔ Blank s := by
  have hofList : trim s = "" ↔ trimChars s.toList = [] := by
    rw [trim, String.ofList_eq_empty_iff]
  rw [hofList, trimChars_eq, List.rdropWhile_eq_nil_iff, Blank]
  constructor
  · intro h c hc
    rw [← List.takeWhile_append_dropWhile (p := isBlank) (l := s.toList), List.mem_append] at hc
    rcases hc with hc | hc
    · exact List.mem_takeWhile_imp hc
    · exact h c hc
  · intro h c hc
    exact h c ((List.dropWhile_sublist _).mem hc)

theorem blank_trim_iff {s : String} : Blank (trim s) ↔ Blank s := by
  rw [← trim_eq_empty_iff, trim_trim, trim_eq_empty_iff]

theorem nonBlank?_eq_some_iff {s t : String} : nonBlank? s = some t ↔ trim s = t ∧ ¬Blank s := by
  rw [nonBlank?, ← trim_eq_empty_iff]
  by_cases h : trim s = "" <;> simp [h]

theorem neat_of_nonBlank? {s t : String} (h : nonBlank? s = some t) : Neat t := by
  obtain ⟨rfl, hblank⟩ := nonBlank?_eq_some_iff.1 h
  exact ⟨trimmed_trim s, fun h => hblank (blank_trim_iff.1 h)⟩

end Text

namespace Author

/-- Whether an author has the mark in front. -/
def Marked (author : String) : Prop := mark.toList <+: author.toList

instance (author : String) : Decidable (Marked author) := inferInstanceAs (Decidable (_ <+: _))

theorem stored_eq (name : String) :
    stored name = if Marked (Text.trim name) then Text.trim name else mark ++ Text.trim name := by
  have hiff : mark.toList.isPrefixOf (Text.trim name).toList = true ↔ Marked (Text.trim name) :=
    List.isPrefixOf_iff_prefix
  rw [stored]
  exact if_congr hiff rfl rfl

theorem marked_stored (name : String) : Marked (stored name) := by
  rw [stored_eq]
  split
  · assumption
  · rw [Marked, String.toList_append]
    exact List.prefix_append _ _

/-- Putting the mark in front keeps a text trimmed. -/
theorem trimmed_mark_append {name : String} (h : Text.Trimmed name) :
    Text.Trimmed (mark ++ name) := by
  have hmark : mark.toList = ['u', '/'] := by decide
  rw [Text.Trimmed, String.toList_append, hmark]
  constructor
  · intro c hc
    cases hc
    decide
  · intro c hc
    rw [List.getLast?_append, Option.mem_def, Option.or_eq_some_iff] at hc
    rcases hc with hc | ⟨-, hc⟩
    · exact h.2 c hc
    · cases hc
      decide

theorem trimmed_stored (name : String) : Text.Trimmed (stored name) := by
  rw [stored_eq]
  split
  · exact Text.trimmed_trim name
  · exact trimmed_mark_append (Text.trimmed_trim name)

end Author
end FilmCatalog
