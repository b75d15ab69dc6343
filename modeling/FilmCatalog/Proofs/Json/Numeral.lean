import FilmCatalog.Json.Decoder
import FilmCatalog.Proofs.Number.Digits

/-!
# Numbers in JSON text

An integer is read back from its text. Whether a double is, is left open
(`Double.ReadsBack`): the reader rounds twice. If so, its text is a numeral.

Key definitions: `Numeral.ofInt`, `Double.numeral?`, `Double.ReadsBack`.
Key theorems: `Json.Document.numeralOfChars?_int`, `Json.Document.isNumeric_int`,
`Json.Document.isNumeric_jsonText`.
-/

namespace FilmCatalog

/-- The numeral that an integer is written as. -/
def Numeral.ofInt (n : ℤ) : Numeral := ⟨decide (n < 0), decimalDigits n.natAbs, none, none⟩

theorem Numeral.integer?_ofInt (n : ℤ) :
    (Numeral.ofInt n).integer? =
      if n < 0 then IntRange.long.check? n else IntRange.longWord.check? n := by
  by_cases hn : n < 0
  · have hne : n.natAbs ≠ 0 := by omega
    have hneg : -(n.natAbs : ℤ) = n := by omega
    simp only [integer?, ofInt, natOfDigits_decimalDigits, hn, decide_true, if_true, hne, hneg,
      Option.isSome_none, Bool.or_self, Bool.false_eq_true, if_false]
  · have hpos : (n.natAbs : ℤ) = n := by omega
    simp only [integer?, ofInt, natOfDigits_decimalDigits, hn, decide_false, hpos,
      Option.isSome_none, Bool.or_self, Bool.false_eq_true, if_false]

namespace Json.Document

theorem readWhole_decimalDigits (n : ℕ) :
    readWhole (Nat.toDigits 10 n) = some (decimalDigits n, []) := by
  have hspan : spanDigits (Nat.toDigits 10 n ++ []) = (decimalDigits n, []) :=
    spanDigits_append (fun c hc => isDigit_of_mem_toDigits hc) (by simp)
  rw [List.append_nil] at hspan
  rw [readWhole, hspan]
  rcases decimalDigits_cases n with ⟨-, hzero⟩ | ⟨d, ds, hd, hds⟩
  · rw [decimalDigits] at hzero ⊢
    rw [hzero]
    rfl
  · rw [decimalDigits] at hds ⊢
    rw [hds]
    split <;> simp_all

/-- An integer is written as its numeral. -/
theorem numeralOfChars?_int (n : ℤ) :
    numeralOfChars? (toString n).toList = some (Numeral.ofInt n) := by
  have hdigits : ∀ c ∈ Nat.toDigits 10 n.natAbs, c.isDigit = true := fun c hc =>
    isDigit_of_mem_toDigits hc
  rw [toList_toString_int]
  by_cases hn : n < 0
  · rw [if_pos hn, numeralOfChars?]
    simp [readWhole_decimalDigits, readFraction, readExponent, Numeral.ofInt, hn]
  · obtain ⟨c, cs, hcs⟩ :=
      List.exists_cons_of_ne_nil (Nat.toDigits_ne_nil (n := n.natAbs) (b := 10))
    have hminus : c ≠ '-' := by
      rintro rfl
      exact absurd (hdigits '-' (by simp [hcs])) (by decide)
    have hwhole := readWhole_decimalDigits n.natAbs
    rw [hcs] at hwhole
    rw [if_neg hn, hcs, numeralOfChars?]
    · simp [hwhole, readFraction, readExponent, Numeral.ofInt, hn]
    · exact fun _ heq => hminus (List.cons.inj heq).1

/-! ## Characters of numerals -/

theorem isNumeralChar_of_isDigit {c : Char} (h : c.isDigit = true) : isNumeralChar c = true := by
  simp [isNumeralChar, h]

/-- Whether a text has only characters of numerals. -/
def IsNumeric (s : String) : Prop := ∀ c ∈ s.toList, isNumeralChar c = true

theorem IsNumeric.append {s t : String} (hs : IsNumeric s) (ht : IsNumeric t) :
    IsNumeric (s ++ t) := by
  intro c hc
  rw [String.toList_append, List.mem_append] at hc
  exact hc.elim (hs c) (ht c)

theorem isNumeric_ofList {cs : List Char} (h : ∀ c ∈ cs, isNumeralChar c = true) :
    IsNumeric (String.ofList cs) := by
  rw [IsNumeric, String.toList_ofList]
  exact h

theorem isNumeric_int (n : ℤ) : IsNumeric (toString n) := by
  intro c hc
  rcases mem_toString_int hc with hdigit | rfl
  · exact isNumeralChar_of_isDigit hdigit
  · rfl

theorem isNumeric_nat (n : ℕ) : IsNumeric (toString n) := by
  rw [Nat.toString_eq_ofList_toDigits]
  exact isNumeric_ofList fun c hc => isNumeralChar_of_isDigit (isDigit_of_mem_toDigits hc)

theorem isNumeric_zeros (n : ℕ) : IsNumeric (Double.zeros n) :=
  isNumeric_ofList fun c hc => by rw [List.eq_of_mem_replicate hc]; rfl

/-- The characters that stand for themselves in the text of a double. -/
theorem isNumeric_marks :
    IsNumeric "" ∧ IsNumeric "0" ∧ IsNumeric "." ∧ IsNumeric "e" ∧ IsNumeric "-" ∧
      IsNumeric "+" := by
  simp [IsNumeric, isNumeralChar]

theorem isNumeric_sides (d : Double.Decimal) : IsNumeric d.sides.1 ∧ IsNumeric d.sides.2 := by
  obtain ⟨hempty, hzero, -⟩ := isNumeric_marks
  have hdigits := isNumeric_nat d.digits
  unfold Double.Decimal.sides
  dsimp only
  split
  · exact ⟨(isNumeric_ofList hdigits).append (isNumeric_zeros _), hempty⟩
  · split
    · exact ⟨isNumeric_ofList fun c hc => hdigits c (List.mem_of_mem_take hc),
        isNumeric_ofList fun c hc => hdigits c (List.mem_of_mem_drop hc)⟩
    · exact ⟨hzero, (isNumeric_zeros _).append (isNumeric_ofList hdigits)⟩

theorem isNumeric_pointed (d : Double.Decimal) : IsNumeric d.pointed := by
  obtain ⟨-, hzero, hpoint, -⟩ := isNumeric_marks
  obtain ⟨hwhole, hrest⟩ := isNumeric_sides d
  unfold Double.Decimal.pointed
  apply (hwhole.append hpoint).append
  split
  · exact hzero
  · exact hrest

theorem isNumeric_scientific (d : Double.Decimal) : IsNumeric d.scientific := by
  obtain ⟨hempty, -, hpoint, hexponent, hminus, hplus⟩ := isNumeric_marks
  have hdigits := isNumeric_nat d.digits
  have hfirst : IsNumeric (String.ofList ((toString d.digits).toList.take 1)) :=
    isNumeric_ofList fun c hc => hdigits c (List.mem_of_mem_take hc)
  have hothers : IsNumeric (String.ofList ((toString d.digits).toList.drop 1)) :=
    isNumeric_ofList fun c hc => hdigits c (List.mem_of_mem_drop hc)
  unfold Double.Decimal.scientific
  refine (((hfirst.append ?_).append hexponent).append ?_).append (isNumeric_nat _)
  · split
    · exact hempty
    · exact hpoint.append hothers
  · split
    · exact hminus
    · exact hplus

theorem isNumeric_signed (x : Double) {s : String} (h : IsNumeric s) : IsNumeric (x.signed s) := by
  obtain ⟨-, -, -, -, hminus, -⟩ := isNumeric_marks
  unfold Double.signed
  split
  · exact hminus.append h
  · exact h

/-- A finite double is written with characters of numerals. -/
theorem isNumeric_jsonText (x : Double) : IsNumeric x.jsonText := by
  obtain ⟨-, hzero, hpoint, -⟩ := isNumeric_marks
  apply isNumeric_signed
  split
  · exact (hzero.append hpoint).append hzero
  · split
    · exact isNumeric_pointed _
    · exact isNumeric_scientific _

end Json.Document

/-! ## Doubles -/

/-- The numeral that a finite double is written as, if its text is one. -/
def Double.numeral? (x : Double) : Option Numeral :=
  Json.Document.numeralOfChars? x.jsonText.toList

/-- Whether a double is read back from its JSON text. -/
def Double.ReadsBack (x : Double) : Prop :=
  Json.Decoder.ofText? Json.Decoder.double x.jsonText = some x

end FilmCatalog
