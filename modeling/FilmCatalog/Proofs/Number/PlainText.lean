import FilmCatalog.Proofs.Json.DoubleText

/-!
# The positional text of a double

In a page address a double is written without an exponent, and without a point if
there is nothing behind it. Such a text is a numeral too, with the value of the
shortest decimal, so different doubles have different texts.

Key theorems: `Double.exists_plain_numeral`, `Double.plainText_injective`.
-/

namespace FilmCatalog.Double

open Parts

/-- The shortest decimal of a double has digits before and behind a point. -/
theorem exists_sides_shortest (x : Double) (tie : Tie) :
    ∃ ws rs, (x.shortest tie).HasSides ws rs := by
  cases hzero : x.isZero with
  | false => exact exists_sides (covers_shortest hzero tie).2
  | true =>
    rw [shortest, if_pos hzero]
    exact ⟨['0'], [], by decide, by simp, by simp, .inl rfl,
      by simp [digitsOf, natOfDigits, Decimal.value]⟩

/-- The text of a double in a page address is a numeral of its shortest decimal. -/
theorem exists_plain_numeral (x : Double) :
    ∃ n, Json.Document.numeralOfChars? x.plainText.toList = some n ∧ n.negative = x.negative ∧
      n.value = (x.shortest .up).value := by
  obtain ⟨ws, rs, h⟩ := exists_sides_shortest x .up
  -- a point stands only before digits
  obtain ⟨p, hvalid, hwhole, hfraction, hexponent, hchars⟩ : ∃ p : Parts, p.Valid ∧ p.whole = ws ∧
      p.fraction.getD [] = rs ∧ p.exponent = none ∧
      (if (String.ofList rs).isEmpty then String.ofList ws
        else String.ofList ws ++ "." ++ String.ofList rs).toList = p.chars false := by
    by_cases hempty : rs = []
    · exact ⟨⟨ws, none, none⟩, ⟨h.whole_digits, h.first, by simp⟩, rfl, hempty.symm, rfl,
        by simp [hempty, chars]⟩
    · have hdigits : ∀ fs ∈ some rs, fs ≠ [] ∧ ∀ c ∈ fs, c.isDigit = true := by
        rintro fs hfs
        obtain rfl := Option.some.inj hfs
        exact ⟨hempty, h.rest_digits⟩
      exact ⟨⟨ws, some rs, none⟩, ⟨h.whole_digits, h.first, hdigits⟩, rfl, rfl, rfl,
        by simp [hempty, chars]⟩
  have htext : x.plainText.toList = p.chars x.negative := by
    rw [plainText, h.sides_eq]
    exact toList_signed x hchars
  refine ⟨p.numeral x.negative, ?_, rfl, ?_⟩
  · rw [htext, numeralOfChars?_chars hvalid]
  · rw [value_numeral, hwhole, hfraction, hexponent, ← h.value, Option.getD_none, zero_sub]

/-- Different doubles are written differently in a page address. -/
theorem plainText_injective : Function.Injective plainText := by
  intro x y h
  obtain ⟨n, hn, hnsign, hnvalue⟩ := exists_plain_numeral x
  obtain ⟨k, hk, hksign, hkvalue⟩ := exists_plain_numeral y
  rw [h] at hn
  obtain rfl : n = k := Option.some.inj (hn.symm.trans hk)
  exact ext_of_shortest (hnsign.symm.trans hksign) (hnvalue.symm.trans hkvalue)

end FilmCatalog.Double
