import FilmCatalog.Number.Numeral
import Mathlib

/-!
# Decimal digits

The digits that a natural number is written with are read back as that number.

Key definitions: `decimalDigits`.
Key theorems: `spanDigits_append`, `natOfDigits_decimalDigits`, `toList_toString_int`.
-/

namespace FilmCatalog

/-- The digits of a number in base ten, the first one first. -/
def decimalDigits (n : ℕ) : List ℕ := (Nat.toDigits 10 n).map fun c => c.toNat - 48

theorem digitValue?_of_isDigit {c : Char} (h : c.isDigit = true) :
    digitValue? c = some (c.toNat - 48) := by
  have hc : '0' ≤ c ∧ c ≤ '9' := by
    simpa [Char.isDigit, Char.le_def] using h
  rw [digitValue?, if_pos hc]
  rfl

theorem digitValue?_of_not_isDigit {c : Char} (h : c.isDigit = false) : digitValue? c = none := by
  rw [digitValue?, if_neg]
  rintro ⟨hlow, hhigh⟩
  simp only [Char.isDigit, Bool.and_eq_false_iff, decide_eq_false_iff_not] at h
  exact h.elim (fun h => h hlow) fun h => h hhigh

theorem isDigit_of_mem_toDigits {n : ℕ} {c : Char} (h : c ∈ Nat.toDigits 10 n) :
    c.isDigit = true :=
  Nat.isDigit_of_mem_toDigits (by decide) (by decide) h

/-- Digits are read up to the first character that is none. -/
theorem spanDigits_append {cs rest : List Char} (h : ∀ c ∈ cs, c.isDigit = true)
    (hr : ∀ c ∈ rest.head?, c.isDigit = false) :
    spanDigits (cs ++ rest) = (cs.map fun c => c.toNat - 48, rest) := by
  induction cs with
  | nil =>
    cases rest with
    | nil => rfl
    | cons c rest =>
      have hc : digitValue? c = none := digitValue?_of_not_isDigit (hr c rfl)
      simp only [List.nil_append, spanDigits, hc, List.map_nil]
  | cons c cs ih =>
    have hc : digitValue? c = some (c.toNat - 48) :=
      digitValue?_of_isDigit (h c List.mem_cons_self)
    simp only [List.cons_append, spanDigits, hc, ih fun d hd => h d (List.mem_cons_of_mem _ hd),
      List.map_cons]

theorem natOfDigits_decimalDigits (n : ℕ) : natOfDigits (decimalDigits n) = n := by
  have hread : Nat.ofDigitChars 10 (Nat.toDigits 10 n) 0 = n := Nat.ofDigitChars_ten_toDigits
  rw [Nat.ofDigitChars_eq_foldl] at hread
  rw [natOfDigits, decimalDigits, List.foldl_map]
  exact hread

/-- Only zero is written with a zero in front. -/
theorem decimalDigits_cases (n : ℕ) :
    n = 0 ∧ decimalDigits n = [0] ∨ ∃ d ds, d ≠ 0 ∧ decimalDigits n = d :: ds := by
  induction n using Nat.strongRecOn with
  | _ n ih =>
    rcases Nat.lt_or_ge n 10 with hn | hn
    · have hdigit : decimalDigits n = [n] := by
        rw [decimalDigits, Nat.toDigits_of_lt_base hn, List.map_singleton,
          Nat.toNat_digitChar_sub_48_of_lt_ten hn]
      rw [hdigit]
      rcases Nat.eq_zero_or_pos n with rfl | hpos
      · exact .inl ⟨rfl, rfl⟩
      · exact .inr ⟨n, [], hpos.ne', rfl⟩
    · have hstep : decimalDigits n = decimalDigits (n / 10) ++ [n % 10] := by
        rw [decimalDigits, Nat.toDigits_of_base_le (by decide) hn, List.map_append,
          List.map_singleton, Nat.toNat_digitChar_sub_48_of_lt_ten (Nat.mod_lt _ (by decide))]
        rfl
      rcases ih (n / 10) (by omega) with ⟨hzero, -⟩ | ⟨d, ds, hd, hds⟩
      · omega
      · exact .inr ⟨d, ds ++ [n % 10], hd, by rw [hstep, hds, List.cons_append]⟩

/-- An integer is written with a minus sign or without, and then the digits. -/
theorem toList_toString_int (n : ℤ) :
    (toString n).toList =
      if n < 0 then '-' :: Nat.toDigits 10 n.natAbs else Nat.toDigits 10 n.natAbs := by
  have hrepr : toString n = n.repr := rfl
  rw [hrepr, Int.repr_eq_if]
  by_cases hn : n < 0
  · have habs : (-n).toNat = n.natAbs := by omega
    rw [if_neg (not_le.2 hn), if_pos hn, String.toList_append, Nat.toList_repr, habs]
    rfl
  · have habs : n.toNat = n.natAbs := by omega
    rw [if_pos (not_lt.1 hn), if_neg hn, Nat.toList_repr, habs]

theorem mem_toString_int {n : ℤ} {c : Char} (h : c ∈ (toString n).toList) :
    c.isDigit = true ∨ c = '-' := by
  rw [toList_toString_int] at h
  split at h
  · rcases List.mem_cons.1 h with rfl | h
    · exact .inr rfl
    · exact .inl (isDigit_of_mem_toDigits h)
  · exact .inl (isDigit_of_mem_toDigits h)

end FilmCatalog
