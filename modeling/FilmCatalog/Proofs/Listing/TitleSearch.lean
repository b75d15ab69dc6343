import FilmCatalog.Proofs.Listing.Selection

/-!
# Titles are searched for as they stand

What a pattern matches is given by four rules, one for each kind of character
(`Sql.Stands`). They leave no room: the characters of a pattern are read in one
way, and a pattern is refused exactly if no text could ever match it because it
ends in the middle of an escape. The matcher that tries every way to share out a
text among the parts of a pattern decides them (`Sql.stands_iff`).

A wanted title gets a backslash before each mark. So it is read character by
character, each for itself, also where it has marks or backslashes in a row or at
its end, and the texts that match are those that contain it.

Key definitions: `Sql.Stands`.
Key theorems: `Sql.stands_iff`, `title_search_literal`.
-/

namespace FilmCatalog

namespace Sql

/-- Whether a pattern stands for a text: a percent sign for any characters, an
underscore for one, a character behind a backslash and any other for itself. -/
inductive Stands : List Char → List Char → Prop where
  | nil : Stands [] []
  | percent {p s : List Char} (before : List Char) (h : Stands p s) :
      Stands ('%' :: p) (before ++ s)
  | underscore {p s : List Char} (c : Char) (h : Stands p s) : Stands ('_' :: p) (c :: s)
  | escape {p s : List Char} (c : Char) (h : Stands p s) : Stands ('\\' :: c :: p) (c :: s)
  | plain {p s : List Char} {c : Char} (hc : isMark c = false) (h : Stands p s) :
      Stands (c :: p) (c :: s)

theorem fits_oneChar {ps : List PatternPart} {s : List Char} :
    PatternPart.fits (.oneChar :: ps) s = true ↔
      ∃ c rest, s = c :: rest ∧ PatternPart.fits ps rest = true := by
  cases s <;> simp [PatternPart.fits]

theorem fits_literal {c : Char} {ps : List PatternPart} {s : List Char} :
    PatternPart.fits (.literal c :: ps) s = true ↔
      ∃ rest, s = c :: rest ∧ PatternPart.fits ps rest = true := by
  simpa using @fits_literals [c] s ps

/-- A character that no backslash stands before is one of three. -/
theorem partOf_cases {c : Char} (h : c ≠ '\\') :
    c = '%' ∧ partOf c = .anything ∨ c = '_' ∧ partOf c = .oneChar ∨
      isMark c = false ∧ partOf c = .literal c := by
  by_cases hp : c = '%'
  · exact .inl ⟨hp, by simp [partOf, hp]⟩
  · by_cases hu : c = '_'
    · exact .inr (.inl ⟨hu, by simp [partOf, hu]⟩)
    · exact .inr (.inr ⟨by simp [isMark, h, hp, hu], by simp [partOf, hp, hu]⟩)

theorem patternParts_of_stands {p s : List Char} (h : Stands p s) :
    ∃ ps, patternParts p = some ps ∧ PatternPart.fits ps s = true := by
  induction h with
  | nil => exact ⟨[], rfl, rfl⟩
  | percent before h ih =>
    obtain ⟨ps, hps, hfits⟩ := ih
    refine ⟨.anything :: ps, ?_, fits_anything.2 ⟨before, _, rfl, hfits⟩⟩
    rw [patternParts_cons (by decide), hps]
    rfl
  | underscore c h ih =>
    obtain ⟨ps, hps, hfits⟩ := ih
    refine ⟨.oneChar :: ps, ?_, fits_oneChar.2 ⟨c, _, rfl, hfits⟩⟩
    rw [patternParts_cons (by decide), hps]
    rfl
  | escape c h ih =>
    obtain ⟨ps, hps, hfits⟩ := ih
    refine ⟨.literal c :: ps, ?_, fits_literal.2 ⟨_, rfl, hfits⟩⟩
    rw [patternParts_backslash, hps]
    rfl
  | @plain p s c hc h ih =>
    obtain ⟨ps, hps, hfits⟩ := ih
    have hne : c ≠ '\\' := by
      rintro rfl
      exact absurd hc (by decide)
    refine ⟨.literal c :: ps, ?_, fits_literal.2 ⟨_, rfl, hfits⟩⟩
    rw [patternParts_cons hne, hps, partOf_plain hc]
    rfl

theorem stands_of_patternParts {p s : List Char} {ps : List PatternPart}
    (hps : patternParts p = some ps) (hfits : PatternPart.fits ps s = true) : Stands p s := by
  fun_induction patternParts p generalizing ps s with
  | case1 =>
    obtain rfl := Option.some.inj hps
    obtain rfl : s = [] := by simpa [PatternPart.fits] using hfits
    exact .nil
  | case2 => cases hps
  | case3 d rest ih =>
    obtain ⟨qs, hqs, rfl⟩ := Option.map_eq_some_iff.1 hps
    obtain ⟨t, rfl, hrest⟩ := fits_literal.1 hfits
    exact .escape d (ih hqs hrest)
  | case4 c rest hc ih =>
    obtain ⟨qs, hqs, rfl⟩ := Option.map_eq_some_iff.1 hps
    rcases partOf_cases hc with ⟨rfl, hpart⟩ | ⟨rfl, hpart⟩ | ⟨hplain, hpart⟩
    · rw [hpart] at hfits
      obtain ⟨before, t, rfl, hrest⟩ := fits_anything.1 hfits
      exact .percent before (ih hqs hrest)
    · rw [hpart] at hfits
      obtain ⟨d, t, rfl, hrest⟩ := fits_oneChar.1 hfits
      exact .underscore d (ih hqs hrest)
    · rw [hpart] at hfits
      obtain ⟨t, rfl, hrest⟩ := fits_literal.1 hfits
      exact .plain hplain (ih hqs hrest)

/-- A pattern stands for the texts that its parts fit. -/
theorem stands_iff {p s : List Char} :
    Stands p s ↔ ∃ ps, patternParts p = some ps ∧ PatternPart.fits ps s = true :=
  ⟨patternParts_of_stands, fun ⟨_, hps, hfits⟩ => stands_of_patternParts hps hfits⟩

theorem stands_between_iff {t s : List Char} :
    Stands ('%' :: (escaped t ++ ['%'])) s ↔ t <:+: s := by
  rw [stands_iff, patternParts_between]
  simp only [Option.some.injEq, exists_eq_left', fits_contains_iff]

end Sql

open Sql

/-- The title condition of a filter is about the pattern of its title. -/
theorem PostFilter.titleLike_mem_iff (f : PostFilter) (pattern : String) :
    Condition.titleLike pattern ∈ f.conditions ↔ f.title.map likePattern = some pattern := by
  have hcursor : ∀ c, f.cursorCondition c ≠ .titleLike pattern := by
    intro c
    unfold cursorCondition
    cases f.sort <;> simp
  simp [conditions, hcursor]

/-- A filter binds the pattern of its title and no other. The pattern is never
refused: it is read as any characters, then the title character by character, then
any characters. So it stands for the texts that contain the title, and where case is
ignored for those that contain it in lower case; that is what the condition asks. -/
theorem title_search_literal (wanted : String) :
    (∀ (f : PostFilter) (pattern : String),
      Condition.titleLike pattern ∈ f.conditions ↔ f.title.map likePattern = some pattern) ∧
    (∀ pattern, (Condition.titleLike pattern).fragment.toStatement =
      ⟨"p.title ILIKE $1", [.text pattern]⟩) ∧
    patternParts (likePattern wanted).toList =
      some (.anything :: (wanted.toList.map .literal ++ [.anything])) ∧
    (∀ s : String, Stands (likePattern wanted).toList s.toList ↔ wanted.toList <:+: s.toList) ∧
    (∀ (L : Lowering) (s : String),
      Stands (L.text (likePattern wanted)) (L.text s) ↔ L.text wanted <:+: L.text s) ∧
    ∀ (D : Dialect) (r : PostRecord),
      (Condition.titleLike (likePattern wanted)).formula.value D r =
        .ok (some (decide (D.text wanted <:+: D.text r.title))) := by
  refine ⟨PostFilter.titleLike_mem_iff, fun pattern => rfl, ?_, fun s => ?_, fun L s => ?_,
    fun D r => ?_⟩
  · rw [toList_likePattern, patternParts_between]
  · rw [toList_likePattern, stands_between_iff]
  · rw [text_likePattern, stands_between_iff]
  · rw [Condition.formula, Formula.value, iLike_likePattern]

/-- A percent sign and a backslash at the end of a title are looked for. -/
example :
    iLike Dialect.plain.toLowering (likePattern "50%\\") "Push 50%\\" = some true ∧
      iLike Dialect.plain.toLowering (likePattern "50%\\") "Push 500" = some false := by
  decide +kernel

end FilmCatalog
