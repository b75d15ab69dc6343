import FilmCatalog.Listing.Query
import Mathlib

/-!
# Patterns

How a database reads the pattern of a text comparison: a percent sign stands
for any characters, an underscore for one, and a backslash makes the character
behind it stand for itself. A pattern that ends in such a backslash is refused.
Where case is ignored, the pattern and the text are both lowered before.

The pattern of a wanted title is the title with its marks escaped between two
percent signs. It is never refused, and it matches the texts that contain the
title (`iLike_likePattern`).

Key definitions: `Lowering`, `PatternPart`, `patternParts`, `PatternPart.fits`, `iLike`.
Key theorems: `patternParts_escape`, `fits_contains_iff`, `iLike_likePattern`.
-/

namespace FilmCatalog.Sql

/-- Whether a character has a meaning of its own in a pattern. -/
def isMark (c : Char) : Bool := c = '\\' || c = '%' || c = '_'

/-- How a database lowers characters; one may become several. Marks are not
letters: they stay, and nothing is lowered to one. -/
structure Lowering where
  lower : Char → List Char
  lower_mark : ∀ c, isMark c = true → lower c = [c]
  lower_plain : ∀ c, isMark c = false → ∀ d ∈ lower c, isMark d = false

/-- A text in lower case. -/
def Lowering.text (L : Lowering) (s : String) : List Char := s.toList.flatMap L.lower

/-- A part of a pattern. -/
inductive PatternPart where
  | anything
  | oneChar
  | literal (c : Char)
  deriving DecidableEq, Repr

/-- What a character means that no backslash stands before. -/
def partOf (c : Char) : PatternPart :=
  if c = '%' then .anything else if c = '_' then .oneChar else .literal c

/-- The parts of a pattern, unless it ends in a backslash that escapes nothing. -/
def patternParts : List Char → Option (List PatternPart)
  | [] => some []
  | c :: rest =>
    if c = '\\' then
      match rest with
      | [] => none
      | d :: rest => (patternParts rest).map (.literal d :: ·)
    else (patternParts rest).map (partOf c :: ·)

/-- Whether a text is made of some parts. -/
def PatternPart.fits : List PatternPart → List Char → Bool
  | [], s => s.isEmpty
  | .anything :: ps, s => (List.range (s.length + 1)).any fun n => fits ps (s.drop n)
  | .oneChar :: ps, s =>
    match s with
    | [] => false
    | _ :: s => fits ps s
  | .literal c :: ps, s =>
    match s with
    | [] => false
    | d :: s => c == d && fits ps s

/-- Whether a text matches a pattern, case ignored; none if the pattern is refused. -/
def iLike (L : Lowering) (pattern s : String) : Option Bool :=
  (patternParts (L.text pattern)).map fun ps => PatternPart.fits ps (L.text s)

/-- A text with a backslash before every mark. -/
def escaped (s : List Char) : List Char :=
  s.flatMap fun c => if isMark c then ['\\', c] else [c]

theorem toList_escapeLike (s : String) : (escapeLike s).toList = escaped s.toList := by
  simp [escapeLike, escaped, isMark, or_assoc]

theorem toList_likePattern (s : String) :
    (likePattern s).toList = '%' :: (escaped s.toList ++ ['%']) := by
  simp [likePattern, toList_escapeLike]

theorem partOf_plain {c : Char} (h : isMark c = false) : partOf c = .literal c := by
  simp only [isMark, Bool.or_eq_false_iff, decide_eq_false_iff_not] at h
  simp [partOf, h.1.2, h.2]

theorem patternParts_backslash (d : Char) (rest : List Char) :
    patternParts ('\\' :: d :: rest) = (patternParts rest).map (.literal d :: ·) := by
  simp [patternParts]

theorem patternParts_cons {c : Char} (h : c ≠ '\\') (rest : List Char) :
    patternParts (c :: rest) = (patternParts rest).map (partOf c :: ·) := by
  cases rest <;> simp [patternParts, h]

/-- An escaped text is read as its characters, each for itself. -/
theorem patternParts_escape (s rest : List Char) :
    patternParts (escaped s ++ rest) = (patternParts rest).map (s.map .literal ++ ·) := by
  induction s with
  | nil => simp [escaped]
  | cons c s ih =>
    cases h : isMark c with
    | true =>
      have hs : escaped (c :: s) ++ rest = '\\' :: c :: (escaped s ++ rest) := by
        simp [escaped, h]
      rw [hs, patternParts_backslash]
      simp only [ih, Option.map_map, Function.comp_def, List.map_cons, List.cons_append]
    | false =>
      have hs : escaped (c :: s) ++ rest = c :: (escaped s ++ rest) := by
        simp [escaped, h]
      have hne : c ≠ '\\' := by
        rintro rfl
        exact absurd h (by decide)
      rw [hs, patternParts_cons hne, partOf_plain h]
      simp only [ih, Option.map_map, Function.comp_def, List.map_cons, List.cons_append]

/-- Lowering an escaped text is escaping the lowered one. -/
theorem flatMap_lower_escaped (L : Lowering) (s : List Char) :
    (escaped s).flatMap L.lower = escaped (s.flatMap L.lower) := by
  induction s with
  | nil => rfl
  | cons c s ih =>
    have hs : escaped (c :: s) = escaped [c] ++ escaped s := by simp [escaped]
    have hl : escaped ((c :: s).flatMap L.lower) =
        escaped (L.lower c) ++ escaped (s.flatMap L.lower) := by
      simp [escaped]
    rw [hs, List.flatMap_append, ih, hl]
    congr 1
    cases h : isMark c with
    | true =>
      have hb : L.lower '\\' = ['\\'] := L.lower_mark _ (by decide)
      simp [escaped, h, L.lower_mark c h, hb]
    | false =>
      have hp : escaped (L.lower c) = L.lower c := by
        have : ∀ d ∈ L.lower c, (if isMark d then ['\\', d] else [d]) = [d] := fun d hd => by
          simp [L.lower_plain c h d hd]
        rw [escaped, List.flatMap_congr this, List.flatMap_singleton']
      rw [hp]
      simp [escaped, h]

theorem fits_anything {ps : List PatternPart} {s : List Char} :
    PatternPart.fits (.anything :: ps) s = true ↔
      ∃ before after, s = before ++ after ∧ PatternPart.fits ps after = true := by
  rw [PatternPart.fits, List.any_eq_true]
  constructor
  · rintro ⟨n, -, h⟩
    exact ⟨s.take n, s.drop n, (List.take_append_drop n s).symm, h⟩
  · rintro ⟨before, after, rfl, h⟩
    refine ⟨before.length, ?_, ?_⟩
    · rw [List.mem_range, List.length_append]
      omega
    · rwa [List.drop_left]

theorem fits_literals {t s : List Char} {ps : List PatternPart} :
    PatternPart.fits (t.map .literal ++ ps) s = true ↔
      ∃ after, s = t ++ after ∧ PatternPart.fits ps after = true := by
  induction t generalizing s with
  | nil => simp
  | cons c t ih =>
    cases s with
    | nil => simp [PatternPart.fits]
    | cons d s =>
      simp only [List.map_cons, List.cons_append, PatternPart.fits, Bool.and_eq_true, beq_iff_eq,
        ih, List.cons.injEq]
      constructor
      · rintro ⟨rfl, after, rfl, h⟩
        exact ⟨after, ⟨rfl, rfl⟩, h⟩
      · rintro ⟨after, ⟨rfl, rfl⟩, h⟩
        exact ⟨rfl, after, rfl, h⟩

/-- Characters between two percent signs fit the texts that contain them. -/
theorem fits_contains_iff {t s : List Char} :
    PatternPart.fits (.anything :: (t.map .literal ++ [.anything])) s = true ↔ t <:+: s := by
  have hall : ∀ u : List Char, PatternPart.fits [.anything] u = true := fun u =>
    fits_anything.2 ⟨u, [], by simp, rfl⟩
  rw [fits_anything]
  constructor
  · rintro ⟨before, after, rfl, h⟩
    obtain ⟨rest, rfl, -⟩ := fits_literals.1 h
    exact ⟨before, rest, by simp⟩
  · rintro ⟨before, rest, rfl⟩
    exact ⟨before, t ++ rest, by simp, fits_literals.2 ⟨rest, rfl, hall rest⟩⟩

/-- Lowering keeps the marks of a pattern and adds none. -/
theorem text_likePattern (L : Lowering) (wanted : String) :
    L.text (likePattern wanted) = '%' :: (escaped (L.text wanted) ++ ['%']) := by
  have hp : L.lower '%' = ['%'] := L.lower_mark _ (by decide)
  rw [Lowering.text, toList_likePattern]
  simp [hp, flatMap_lower_escaped, Lowering.text]

/-- Between two percent signs an escaped text is read as its characters. -/
theorem patternParts_between (t : List Char) :
    patternParts ('%' :: (escaped t ++ ['%'])) =
      some (.anything :: (t.map .literal ++ [.anything])) := by
  rw [patternParts_cons (by decide), patternParts_escape]
  simp [patternParts, partOf]

/-- The pattern of a wanted text is never refused and matches the texts that
contain it, case ignored. -/
theorem iLike_likePattern (L : Lowering) (wanted s : String) :
    iLike L (likePattern wanted) s = some (decide (L.text wanted <:+: L.text s)) := by
  rw [iLike, text_likePattern, patternParts_between, Option.map_some, Option.some_inj,
    Bool.eq_iff_iff, fits_contains_iff]
  exact (decide_eq_true_iff).symm

end FilmCatalog.Sql
