import FilmCatalog.Number.Shortest
import Mathlib

/-!
# Shortest digits tell doubles apart

The reals that read back as a positive number lie between the midpoints to its
neighbours (`Spread.Covers`), so no real reads back as two numbers. The search
always ends on a grid point among them: the last grid has seventeen digits, and
of the two points around the number one is nearer than the midpoint. So the
shortest digits of a number stand for a real that reads back as that number, and
different numbers have different digits.

Key definitions: `Decimal.value`, `Spread.Covers`.
Key theorems: `Spread.pow_log10_le`, `exists_onGrid`, `covers_shortest`,
`magnitude_eq_of_covers`, `ext_of_shortest`.
-/

namespace FilmCatalog.Double

/-- The real that a decimal stands for. -/
def Decimal.value (d : Decimal) : ℚ := d.digits * (10 : ℚ) ^ d.scale

/-- Stripping zeros changes neither the value nor whether there are digits. -/
theorem Decimal.stripped_spec (fuel : ℕ) (d : Decimal) :
    (d.stripped fuel).value = d.value ∧ (d.digits ≠ 0 → (d.stripped fuel).digits ≠ 0) := by
  induction fuel generalizing d with
  | zero => exact ⟨rfl, id⟩
  | succ fuel ih =>
    unfold stripped
    split
    · rename_i h
      obtain ⟨hvalue, hdigits⟩ := ih ⟨d.digits / 10, d.scale + 1⟩
      have hten : d.digits = d.digits / 10 * 10 := by omega
      refine ⟨?_, fun _ => hdigits (by simp only; omega)⟩
      calc (stripped fuel ⟨d.digits / 10, d.scale + 1⟩).value
          = (d.digits / 10 : ℕ) * (10 : ℚ) ^ (d.scale + 1) := hvalue
        _ = (d.digits / 10 * 10 : ℕ) * (10 : ℚ) ^ d.scale := by
            rw [zpow_add_one₀ (by norm_num)]
            push_cast
            ring
        _ = d.value := by rw [← hten, value]
    · exact ⟨rfl, id⟩

/-! ## Comparing counts of two units -/

theorem pow_mul_toNat {b : ℚ} (hb : b ≠ 0) (n : ℤ) : b ^ n * b ^ (-n).toNat = b ^ n.toNat := by
  rw [← zpow_natCast, ← zpow_natCast, ← zpow_add₀ hb]
  congr 1
  omega

/-- The factors are to each other as the units are. -/
theorem commonUnit_spec (unit scale : ℤ) :
    ∃ common : ℚ, 0 < common ∧ ((commonUnit unit scale).1 : ℚ) = (2 : ℚ) ^ unit * common ∧
      ((commonUnit unit scale).2 : ℚ) = (10 : ℚ) ^ scale * common := by
  refine ⟨(2 : ℚ) ^ (-unit).toNat * (10 : ℚ) ^ (-scale).toNat, by positivity, ?_, ?_⟩
  · simp only [commonUnit, Nat.shiftLeft_eq, Nat.pow_eq]
    push_cast
    rw [← mul_assoc, pow_mul_toNat (by norm_num), mul_comm]
  · simp only [commonUnit, Nat.shiftLeft_eq, Nat.pow_eq]
    push_cast
    rw [mul_comm ((2 : ℚ) ^ _), ← mul_assoc, pow_mul_toNat (by norm_num)]

/-- Counts of the factors are to each other as counts of the units are. -/
theorem counts_spec (unit scale : ℤ) :
    ∃ common : ℚ, 0 < common ∧ ∀ n : ℕ,
      ((n * (commonUnit unit scale).1 : ℕ) : ℚ) = n * (2 : ℚ) ^ unit * common ∧
        ((n * (commonUnit unit scale).2 : ℕ) : ℚ) = n * (10 : ℚ) ^ scale * common := by
  obtain ⟨common, hpos, htwo, hten⟩ := commonUnit_spec unit scale
  refine ⟨common, hpos, fun n => ?_⟩
  rw [Nat.cast_mul, Nat.cast_mul, htwo, hten, mul_assoc, mul_assoc]
  exact ⟨rfl, rfl⟩

section

variable {unit scale : ℤ} {a b : ℕ}

theorem two_le_ten_iff :
    a * (commonUnit unit scale).1 ≤ b * (commonUnit unit scale).2 ↔
      (a : ℚ) * (2 : ℚ) ^ unit ≤ b * (10 : ℚ) ^ scale := by
  obtain ⟨common, hpos, hcounts⟩ := counts_spec unit scale
  rw [← Nat.cast_le (α := ℚ), (hcounts a).1, (hcounts b).2, mul_le_mul_iff_left₀ hpos]

theorem ten_le_two_iff :
    b * (commonUnit unit scale).2 ≤ a * (commonUnit unit scale).1 ↔
      (b : ℚ) * (10 : ℚ) ^ scale ≤ a * (2 : ℚ) ^ unit := by
  obtain ⟨common, hpos, hcounts⟩ := counts_spec unit scale
  rw [← Nat.cast_le (α := ℚ), (hcounts a).1, (hcounts b).2, mul_le_mul_iff_left₀ hpos]

end

theorem commonUnit_pos (unit scale : ℤ) : 0 < (commonUnit unit scale).2 := by
  obtain ⟨common, hpos, -, hten⟩ := commonUnit_spec unit scale
  rw [← Nat.cast_pos (α := ℚ), hten]
  positivity

namespace Spread

/-- The real of a count of the unit. -/
def real (s : Spread) (n : ℕ) : ℚ := n * (2 : ℚ) ^ s.unit

/-- Whether a real reads back as the number. -/
def Covers (s : Spread) (r : ℚ) : Prop :=
  if s.closed = true then s.real s.low ≤ r ∧ r ≤ s.real s.high
  else s.real s.low < r ∧ r < s.real s.high

theorem covers_of_lt {s : Spread} {r : ℚ} (hlow : s.real s.low < r) (hhigh : r < s.real s.high) :
    s.Covers r := by
  unfold Covers
  split
  · exact ⟨hlow.le, hhigh.le⟩
  · exact ⟨hlow, hhigh⟩

theorem Covers.le {s : Spread} {r : ℚ} (h : s.Covers r) : s.real s.low ≤ r ∧ r ≤ s.real s.high := by
  unfold Covers at h
  split at h
  · exact h
  · exact ⟨h.1.le, h.2.le⟩

/-- Only a closed interval has its ends. -/
theorem Covers.closed {s : Spread} {r : ℚ} (h : s.Covers r)
    (hend : r = s.real s.low ∨ r = s.real s.high) : s.closed = true := by
  by_contra hopen
  rw [Covers, if_neg hopen] at h
  rcases hend with rfl | rfl
  · exact lt_irrefl _ h.1
  · exact lt_irrefl _ h.2

/-! ## The search -/

/-- Whether a grid point reads back as the number. -/
def inside (s : Spread) (scale : ℤ) (n : ℕ) : Bool :=
  let (two, ten) := commonUnit s.unit scale
  if s.closed then decide (s.low * two ≤ n * ten) && decide (n * ten ≤ s.high * two)
  else decide (s.low * two < n * ten) && decide (n * ten < s.high * two)

theorem inside_iff {s : Spread} {scale : ℤ} {n : ℕ} :
    s.inside scale n = true ↔ s.Covers (n * (10 : ℚ) ^ scale) := by
  unfold inside Covers
  dsimp only
  by_cases hclosed : s.closed = true
  · simp only [if_pos hclosed, Bool.and_eq_true, decide_eq_true_eq, two_le_ten_iff, ten_le_two_iff,
      Spread.real]
  · simp only [if_neg hclosed, Bool.and_eq_true, decide_eq_true_eq, ← not_le, two_le_ten_iff,
      ten_le_two_iff, Spread.real]

/-- The grid point below the number. -/
def below (s : Spread) (scale : ℤ) : ℕ :=
  s.value * (commonUnit s.unit scale).1 / (commonUnit s.unit scale).2

theorem below_le (s : Spread) (scale : ℤ) :
    (s.below scale : ℚ) * (10 : ℚ) ^ scale ≤ s.real s.value :=
  ten_le_two_iff.1 (Nat.div_mul_le_self _ _)

theorem lt_above (s : Spread) (scale : ℤ) :
    s.real s.value < ((s.below scale + 1 : ℕ) : ℚ) * (10 : ℚ) ^ scale := by
  have hlt := Nat.lt_mul_div_succ (s.value * (commonUnit s.unit scale).1)
    (commonUnit_pos s.unit scale)
  rw [mul_comm (commonUnit s.unit scale).2] at hlt
  exact not_le.1 fun hle => absurd (ten_le_two_iff.2 hle) (not_le.2 hlt)

theorem choose_eq (tie : Tie) (n : ℕ) : tie.choose n = n ∨ tie.choose n = n + 1 := by
  cases tie with
  | even =>
    simp only [Tie.choose]
    omega
  | up => exact .inr rfl

/-- Of the two points around the number one is taken that reads back as it. -/
theorem onGrid?_eq (s : Spread) (tie : Tie) (scale : ℤ) :
    ∃ near, (near = s.below scale ∨ near = s.below scale + 1) ∧
      s.onGrid? tie scale =
        if (decide (s.below scale ≠ 0) && s.inside scale (s.below scale)) &&
            s.inside scale (s.below scale + 1) then some near
        else if decide (s.below scale ≠ 0) && s.inside scale (s.below scale) then
          some (s.below scale)
        else if s.inside scale (s.below scale + 1) then some (s.below scale + 1)
        else none := by
  let down := s.value * (commonUnit s.unit scale).1 - s.below scale * (commonUnit s.unit scale).2
  let up :=
    (s.below scale + 1) * (commonUnit s.unit scale).2 - s.value * (commonUnit s.unit scale).1
  refine ⟨if down < up then s.below scale else if up < down then s.below scale + 1
    else tie.choose (s.below scale), ?_, ?_⟩
  · split_ifs
    · exact .inl rfl
    · exact .inr rfl
    · exact choose_eq tie _
  · rw [apply_ite some, apply_ite some]
    rfl

/-- The point that is taken from a grid reads back as the number. -/
theorem covers_of_onGrid {s : Spread} {tie : Tie} {scale : ℤ} {n : ℕ}
    (h : s.onGrid? tie scale = some n) : s.Covers (n * (10 : ℚ) ^ scale) ∧ n ≠ 0 := by
  obtain ⟨near, hnear, heq⟩ := onGrid?_eq s tie scale
  rw [heq] at h
  rw [← inside_iff]
  split_ifs at h with hboth hbelow habove
  · simp only [Bool.and_eq_true, decide_eq_true_eq] at hboth
    obtain ⟨⟨hne, hbelow⟩, habove⟩ := hboth
    obtain rfl := Option.some.inj h
    rcases hnear with rfl | rfl
    · exact ⟨hbelow, hne⟩
    · exact ⟨habove, Nat.succ_ne_zero _⟩
  · simp only [Bool.and_eq_true, decide_eq_true_eq] at hbelow
    obtain rfl := Option.some.inj h
    exact ⟨hbelow.2, hbelow.1⟩
  · obtain rfl := Option.some.inj h
    exact ⟨habove, Nat.succ_ne_zero _⟩

/-- A grid has such a point if one of the two around the number reads back as it. -/
theorem exists_onGrid {s : Spread} {scale : ℤ} (tie : Tie)
    (h : s.below scale ≠ 0 ∧ s.Covers (s.below scale * (10 : ℚ) ^ scale) ∨
      s.Covers ((s.below scale + 1 : ℕ) * (10 : ℚ) ^ scale)) :
    ∃ n, s.onGrid? tie scale = some n := by
  obtain ⟨near, -, heq⟩ := onGrid?_eq s tie scale
  rw [heq]
  rw [← inside_iff, ← inside_iff] at h
  split_ifs with hboth hbelow habove
  · exact ⟨_, rfl⟩
  · exact ⟨_, rfl⟩
  · exact ⟨_, rfl⟩
  · simp only [Bool.and_eq_true, decide_eq_true_eq] at hbelow
    rcases h with h | h
    · exact absurd h hbelow
    · exact absurd h habove

/-- If the last grid has a point, the search ends with a decimal that reads back. -/
theorem covers_search {s : Spread} {tie : Tie} {top : ℤ}
    (hlast : ∃ n, s.onGrid? tie (top - 16) = some n) (left : ℕ) :
    s.Covers (s.search tie top (left + 1)).value ∧ (s.search tie top (left + 1)).digits ≠ 0 := by
  induction left with
  | zero =>
    obtain ⟨n, hn⟩ := hlast
    obtain ⟨hcovers, hne⟩ := covers_of_onGrid hn
    obtain ⟨hvalue, hdigits⟩ := Decimal.stripped_spec 18 ⟨n, top - 16⟩
    have hscale : top - (16 - ((0 : ℕ) : ℤ)) = top - 16 := by omega
    rw [search]
    simp only [hscale, hn]
    exact ⟨hvalue ▸ hcovers, hdigits hne⟩
  | succ left ih =>
    rw [search]
    cases hn : s.onGrid? tie (top - (16 - ((left + 1 : ℕ) : ℤ))) with
    | none => simpa only [hn] using ih
    | some n =>
      obtain ⟨hcovers, hne⟩ := covers_of_onGrid hn
      obtain ⟨hvalue, hdigits⟩ := Decimal.stripped_spec 18 ⟨n, top - (16 - ((left + 1 : ℕ) : ℤ))⟩
      exact ⟨hvalue ▸ hcovers, hdigits hne⟩

/-! ## The first digit -/

theorem ten_pow_le_two_pow {p n : ℕ} (h : 100000 * p ≤ 30102 * n) : 10 ^ p ≤ 2 ^ n := by
  have hbase : 10 ^ 30102 ≤ 2 ^ 100000 := by decide +kernel
  refine (Nat.pow_le_pow_iff_left (n := 100000) (by decide)).1 ?_
  calc (10 ^ p) ^ 100000 = 10 ^ (100000 * p) := by rw [← pow_mul, mul_comm]
    _ ≤ 10 ^ (30102 * n) := Nat.pow_le_pow_right (by decide) h
    _ = (10 ^ 30102) ^ n := pow_mul _ _ _
    _ ≤ (2 ^ 100000) ^ n := Nat.pow_le_pow_left hbase n
    _ = (2 ^ n) ^ 100000 := pow_right_comm _ _ _

theorem two_pow_le_ten_pow {p n : ℕ} (h : 30103 * n ≤ 100000 * p) : 2 ^ n ≤ 10 ^ p := by
  have hbase : 2 ^ 100000 ≤ 10 ^ 30103 := by decide +kernel
  refine (Nat.pow_le_pow_iff_left (n := 100000) (by decide)).1 ?_
  calc (2 ^ n) ^ 100000 = (2 ^ 100000) ^ n := pow_right_comm _ _ _
    _ ≤ (10 ^ 30103) ^ n := Nat.pow_le_pow_left hbase n
    _ = 10 ^ (30103 * n) := (pow_mul _ _ _).symm
    _ ≤ 10 ^ (100000 * p) := Nat.pow_le_pow_right (by decide) h
    _ = (10 ^ p) ^ 100000 := by rw [← pow_mul, mul_comm]

/-- The logarithm of two is between 0.30102 and 0.30103, so a power of two is at least
the power of ten before the one that the greater factor gives. -/
theorem estimate_le {k : ℤ} (hk : k ≤ 100000) :
    (10 : ℚ) ^ (k * 30103 / 100000 - 1) ≤ (2 : ℚ) ^ k := by
  rcases le_total 0 k with hnonneg | hneg
  · obtain ⟨n, rfl⟩ := Int.eq_ofNat_of_zero_le hnonneg
    rw [zpow_natCast]
    by_cases hq : (n : ℤ) * 30103 / 100000 - 1 ≤ 0
    · calc (10 : ℚ) ^ ((n : ℤ) * 30103 / 100000 - 1) ≤ 1 := zpow_le_one_of_nonpos₀ (by norm_num) hq
        _ ≤ (2 : ℚ) ^ n := one_le_pow₀ (by norm_num)
    · obtain ⟨p, hp⟩ := Int.eq_ofNat_of_zero_le (not_le.1 hq).le
      have hle : 10 ^ p ≤ 2 ^ n := ten_pow_le_two_pow (by omega)
      rw [hp, zpow_natCast]
      exact_mod_cast hle
  · obtain ⟨n, hn⟩ := Int.eq_ofNat_of_zero_le (neg_nonneg.2 hneg)
    obtain ⟨p, hp⟩ := Int.eq_ofNat_of_zero_le
      (show 0 ≤ -(k * 30103 / 100000 - 1) by omega)
    have hle : 2 ^ n ≤ 10 ^ p := two_pow_le_ten_pow (by omega)
    have hcast : (2 : ℚ) ^ n ≤ (10 : ℚ) ^ p := by exact_mod_cast hle
    have hten : k * 30103 / 100000 - 1 = -(p : ℤ) := by omega
    have htwo : k = -(n : ℤ) := by omega
    rw [hten, htwo, zpow_neg, zpow_neg, zpow_natCast, zpow_natCast]
    exact inv_anti₀ (by positivity) hcast

/-- The power of ten that the search starts from is no greater than the number. -/
theorem pow_log10_le {s : Spread} (hvalue : s.value ≠ 0) (hk : s.value.log2 + s.unit ≤ 100000) :
    (10 : ℚ) ^ s.log10 ≤ s.real s.value := by
  have hreaches (k : ℤ) :
      decide ((commonUnit s.unit k).2 ≤ s.value * (commonUnit s.unit k).1) = true →
        (10 : ℚ) ^ k ≤ s.real s.value := by
    intro h
    have hone : 1 * (commonUnit s.unit k).2 ≤ s.value * (commonUnit s.unit k).1 := by
      rw [one_mul]
      exact of_decide_eq_true h
    have hreal := ten_le_two_iff.1 hone
    rwa [Nat.cast_one, one_mul] at hreal
  unfold log10
  dsimp only
  split_ifs with hnext hhere
  · exact hreaches _ hnext
  · exact hreaches _ hhere
  · calc (10 : ℚ) ^ ((s.value.log2 + s.unit) * 30103 / 100000 - 1)
        ≤ (2 : ℚ) ^ ((s.value.log2 : ℤ) + s.unit) := estimate_le hk
      _ = (2 : ℚ) ^ s.value.log2 * (2 : ℚ) ^ s.unit := by
          rw [zpow_add₀ (by norm_num), zpow_natCast]
      _ ≤ s.value * (2 : ℚ) ^ s.unit := by
          have hlog : ((2 ^ s.value.log2 : ℕ) : ℚ) ≤ s.value := by
            exact_mod_cast Nat.log2_self_le hvalue
          push_cast at hlog
          gcongr

end Spread

/-! ## The spread of a double -/

/-- The numbers with the least exponent have their magnitude as the mantissa; the
others have one more digit, which is not part of the magnitude. -/
theorem mantissa_cases (x : Double) :
    x.magnitude.val < fractions ∧ x.mantissa = x.magnitude.val ∧ x.exponent = -1074 ∨
      ∃ e r, 1 ≤ e ∧ r < fractions ∧ x.magnitude.val = e * fractions + r ∧
        x.mantissa = fractions + r ∧ x.exponent = (e : ℤ) - 1075 := by
  unfold mantissa exponent fractions
  by_cases h : x.magnitude.val / 4503599627370496 = 0
  · left
    rw [if_pos h]
    omega
  · right
    refine ⟨x.magnitude.val / 4503599627370496, x.magnitude.val % 4503599627370496, ?_⟩
    rw [if_neg h]
    omega

theorem mantissa_lt (x : Double) : x.mantissa < 2 * fractions := by
  rcases mantissa_cases x with ⟨hlt, hm, -⟩ | ⟨e, r, -, hr, -, hm, -⟩ <;> omega

theorem exponent_le (x : Double) : x.exponent ≤ 972 := by
  have hlt := x.magnitude.isLt
  rcases mantissa_cases x with ⟨-, -, he⟩ | ⟨e, r, -, -, hn, -, he⟩
  · omega
  · unfold fractions at hn
    omega

variable {x : Double}

theorem mantissa_ne_zero (h : x.isZero = false) : x.mantissa ≠ 0 := by
  have hne : x.magnitude.val ≠ 0 := by simpa [isZero] using h
  rcases mantissa_cases x with ⟨-, hm, -⟩ | ⟨e, r, -, -, -, hm, -⟩
  · omega
  · unfold fractions at hm
    omega

theorem spread_low (h : x.isZero = false) :
    (x.spread.low : ℚ) =
      if x.mantissa = fractions ∧ -1074 < x.exponent then 4 * (x.mantissa : ℚ) - 1
      else 4 * (x.mantissa : ℚ) - 2 := by
  have hpos := Nat.pos_of_ne_zero (mantissa_ne_zero h)
  simp only [spread, Bool.and_eq_true, decide_eq_true_eq]
  split
  · rw [Nat.cast_sub (by omega)]
    push_cast
    rfl
  · rw [Nat.cast_sub (by omega)]
    push_cast
    rfl

/-- The interval of a number reaches beyond one of the two points around it of a grid
whose step is small enough. -/
theorem covers_around {scale : ℤ} (h : x.isZero = false)
    (hstep : (10 : ℚ) ^ 16 * (10 : ℚ) ^ scale ≤ x.spread.real x.spread.value) :
    x.spread.below scale ≠ 0 ∧
        x.spread.Covers (x.spread.below scale * (10 : ℚ) ^ scale) ∨
      x.spread.Covers ((x.spread.below scale + 1 : ℕ) * (10 : ℚ) ^ scale) := by
  have hbelow := x.spread.below_le scale
  have habove := x.spread.lt_above scale
  have hlow := spread_low h
  have hstep' : (0 : ℚ) < (10 : ℚ) ^ scale := by positivity
  have hunit : (0 : ℚ) < (2 : ℚ) ^ x.spread.unit := by positivity
  have hmantissa : (x.mantissa : ℚ) < 2 * 4503599627370496 := by exact_mod_cast x.mantissa_lt
  have hvalue : x.spread.real x.spread.value = 4 * x.mantissa * (2 : ℚ) ^ x.spread.unit := by
    simp [Spread.real, spread]
  have hhigh : x.spread.real x.spread.high = (4 * x.mantissa + 2) * (2 : ℚ) ^ x.spread.unit := by
    simp [Spread.real, spread]
  have hlow' : x.spread.real x.spread.low = x.spread.low * (2 : ℚ) ^ x.spread.unit := rfl
  generalize (2 : ℚ) ^ x.spread.unit = unit at *
  generalize (10 : ℚ) ^ scale = step at *
  rw [hvalue] at hbelow habove hstep
  rw [Nat.cast_add, Nat.cast_one] at habove ⊢
  -- the step is less than the length of the interval, and than its upper half for a power of two
  by_cases hpower : x.mantissa = fractions ∧ -1074 < x.exponent
  · rw [if_pos hpower] at hlow
    have hshort : step < 2 * unit := by
      have hm : (x.mantissa : ℚ) = 4503599627370496 := by exact_mod_cast hpower.1
      rw [hm] at hstep
      linarith
    refine .inr (Spread.covers_of_lt ?_ ?_)
    · rw [hlow', hlow]
      linarith
    · rw [hhigh]
      linarith
  · rw [if_neg hpower] at hlow
    have hshort : step < 4 * unit := by nlinarith
    by_cases hup : (x.spread.below scale + 1) * step < (4 * x.mantissa + 2) * unit
    · refine .inr (Spread.covers_of_lt ?_ (hhigh ▸ hup))
      rw [hlow', hlow]
      linarith
    · refine .inl ⟨fun hzero => ?_, Spread.covers_of_lt ?_ ?_⟩
      · rw [hzero] at habove
        push_cast at habove
        linarith
      · rw [hlow', hlow]
        linarith
      · rw [hhigh]
        linarith

/-- The shortest decimal of a number reads back as the number. -/
theorem covers_shortest (h : x.isZero = false) (tie : Tie) :
    x.spread.Covers (x.shortest tie).value ∧ (x.shortest tie).digits ≠ 0 := by
  have hm := x.mantissa_lt
  have hm0 := mantissa_ne_zero h
  have he := x.exponent_le
  have hvalue : x.spread.value ≠ 0 := by
    simp only [spread]
    omega
  have hlog : x.spread.value.log2 < 55 := by
    rw [Nat.log2_lt hvalue]
    simp only [spread]
    unfold fractions at hm
    omega
  have hunit : x.spread.unit ≤ 970 := by
    simp only [spread]
    omega
  have htop := Spread.pow_log10_le hvalue (by omega)
  rw [shortest, if_neg (by simp [h])]
  refine Spread.covers_search (Spread.exists_onGrid tie (covers_around h ?_)) 16
  calc (10 : ℚ) ^ 16 * (10 : ℚ) ^ (x.spread.log10 - 16) = (10 : ℚ) ^ x.spread.log10 := by
        rw [← zpow_natCast, ← zpow_add₀ (by norm_num)]
        congr 1
        omega
    _ ≤ x.spread.real x.spread.value := htop

/-! ## The intervals of different numbers -/

/-- A number is greater by one than another: its interval begins where that of the
other ends. -/
theorem low_of_succ {y : Double} (h : y.magnitude.val = x.magnitude.val + 1) :
    y.spread.real y.spread.low = x.spread.real x.spread.high := by
  -- either both count one unit, or the smaller is the last one before a power of two
  have hcases : y.exponent = x.exponent ∧ y.spread.low = x.spread.high ∨
      y.exponent = x.exponent + 1 ∧ 2 * y.spread.low = x.spread.high := by
    have hlow : y.spread.low = if y.mantissa = fractions ∧ -1074 < y.exponent then
        4 * y.mantissa - 1 else 4 * y.mantissa - 2 := by
      simp only [spread, Bool.and_eq_true, decide_eq_true_eq]
    have hhigh : x.spread.high = 4 * x.mantissa + 2 := rfl
    rw [hlow, hhigh]
    rcases mantissa_cases x with ⟨hx, hxm, hxe⟩ | ⟨e, r, he, hr, hx, hxm, hxe⟩ <;>
      rcases mantissa_cases y with ⟨hy, hym, hye⟩ | ⟨e', r', he', hr', hy, hym, hye⟩ <;>
      unfold fractions at * <;> split <;> omega
  have hunit (z : Double) : z.spread.unit = z.exponent - 2 := rfl
  rcases hcases with ⟨hexponent, hlow⟩ | ⟨hexponent, hlow⟩
  · rw [Spread.real, Spread.real, hlow, hunit, hunit, hexponent]
  · have hpow : (2 : ℚ) ^ (x.exponent + 1 - 2) = 2 * (2 : ℚ) ^ (x.exponent - 2) := by
      rw [show x.exponent + 1 - 2 = x.exponent - 2 + 1 by ring, zpow_add_one₀ (by norm_num)]
      ring
    rw [Spread.real, Spread.real, ← hlow, hunit, hunit, hexponent, hpow]
    push_cast
    ring

theorem low_lt_high (x : Double) : x.spread.real x.spread.low < x.spread.real x.spread.high := by
  have hlt : x.spread.low < x.spread.high := by
    simp only [spread]
    split <;> omega
  have hcast : (x.spread.low : ℚ) < x.spread.high := by exact_mod_cast hlt
  unfold Spread.real
  gcongr

/-- The interval of a number ends before that of a greater one begins, or at its
beginning if no number is between them. -/
theorem high_le_low {y : Double} (h : x.magnitude.val + 1 ≤ y.magnitude.val) :
    x.spread.real x.spread.high ≤ y.spread.real y.spread.low ∧
      (x.magnitude.val + 1 < y.magnitude.val →
        x.spread.real x.spread.high < y.spread.real y.spread.low) := by
  generalize hn : y.magnitude.val = n at h
  induction n, h using Nat.le_induction generalizing y with
  | base => exact ⟨(low_of_succ hn).ge, fun hlt => absurd hlt (lt_irrefl _)⟩
  | succ n _ ih =>
    have hbound := y.magnitude.isLt
    let z : Double := ⟨false, ⟨n, by omega⟩⟩
    have hlt : x.spread.real x.spread.high < y.spread.real y.spread.low := by
      calc x.spread.real x.spread.high ≤ z.spread.real z.spread.low := (ih (y := z) rfl).1
        _ < z.spread.real z.spread.high := z.low_lt_high
        _ = y.spread.real y.spread.low := (low_of_succ hn).symm
    exact ⟨hlt.le, fun _ => hlt⟩

/-- Closed intervals are those of even numbers. -/
theorem closed_iff (x : Double) : x.spread.closed = true ↔ x.magnitude.val % 2 = 0 := by
  have hclosed : x.spread.closed = true ↔ x.mantissa % 2 = 0 := beq_iff_eq
  rw [hclosed]
  rcases mantissa_cases x with ⟨-, hm, -⟩ | ⟨e, r, -, -, hn, hm, -⟩
  · rw [hm]
  · unfold fractions at hn hm
    omega

theorem not_covers_both {y : Double} {r : ℚ} (h : x.magnitude.val < y.magnitude.val)
    (hx : x.spread.Covers r) (hy : y.spread.Covers r) : False := by
  obtain ⟨hle, hlt⟩ := high_le_low (x := x) (y := y) h
  have hxr := hx.le.2
  have hyr := hy.le.1
  by_cases hnext : x.magnitude.val + 1 < y.magnitude.val
  · linarith [hlt hnext]
  · -- both intervals would have the end that they share, but only one of them is closed
    have hxc := (closed_iff x).1 (hx.closed (.inr (by linarith)))
    have hyc := (closed_iff y).1 (hy.closed (.inl (by linarith)))
    omega

/-- No real reads back as two numbers. -/
theorem magnitude_eq_of_covers {y : Double} {r : ℚ} (hx : x.spread.Covers r)
    (hy : y.spread.Covers r) : x.magnitude = y.magnitude := by
  rcases lt_trichotomy x.magnitude.val y.magnitude.val with hlt | heq | hgt
  · exact (not_covers_both hlt hx hy).elim
  · exact Fin.ext heq
  · exact (not_covers_both hgt hy hx).elim

/-- The sign and the shortest decimal of a number tell it from all others. -/
theorem ext_of_shortest {y : Double} {tie : Tie} (hsign : x.negative = y.negative)
    (hvalue : (x.shortest tie).value = (y.shortest tie).value) : x = y := by
  have hzero (z w : Double) (hz : z.isZero = true) (hw : w.isZero = false) :
      (z.shortest tie).value ≠ (w.shortest tie).value := by
    have hdigits := (covers_shortest hw tie).2
    rw [shortest, if_pos hz, Decimal.value, Decimal.value]
    simp only [Nat.cast_zero, zero_mul]
    exact (by positivity : (0 : ℚ) < _).ne
  have hmagnitude : x.magnitude = y.magnitude := by
    cases hx : x.isZero with
    | true =>
      cases hy : y.isZero with
      | true => exact Fin.ext ((beq_iff_eq.1 hx).trans (beq_iff_eq.1 hy).symm)
      | false => exact absurd hvalue (hzero x y hx hy)
    | false =>
      cases hy : y.isZero with
      | true => exact absurd hvalue.symm (hzero y x hy hx)
      | false =>
        refine magnitude_eq_of_covers (covers_shortest hx tie).1 ?_
        rw [hvalue]
        exact (covers_shortest hy tie).1
  exact Double.ext hsign hmagnitude

end FilmCatalog.Double
