/-!
# Double-precision numbers

A double is held as its sign and the other 63 bits of its 64-bit pattern read
as one number, the magnitude. Magnitudes are in the order of absolute
values, so the two orders in use are orders on integers: `key` for the usual
comparisons, where both zeros are equal and NaN compares with nothing, and
`rank` for the total order, where `-0` comes just before `0`.

A finite double is `mantissa * 2 ^ exponent`, and `ofRatio` is the double
nearest to a quotient, a tie going to the even mantissa.

Key definitions: `Double`, `Double.lt`, `Double.equal`, `Double.rank`,
`Double.ofRatio`, `Double.mul`, `Double.div`.
Key theorems: `Double.ext_of_rank`, `Double.equal_self`.
-/

namespace FilmCatalog

/-- A double-precision number: its sign and the other 63 bits of its pattern. -/
@[ext]
structure Double where
  negative : Bool
  magnitude : Fin 9223372036854775808
  deriving DecidableEq, Repr

namespace Double

/-- How many fractions there are for each exponent, `2 ^ 52`. The mantissa of a
number with the least exponent is its fraction; any other is larger by this. -/
def fractions : Nat := 4503599627370496

/-- The magnitude of the infinities; a larger one is not a number. -/
def infinite : Nat := 2047 * fractions

/-- Positive or negative zero. -/
def zero (negative : Bool) : Double := ⟨negative, 0⟩

/-- Positive or negative infinity. -/
def infinity (negative : Bool) : Double := ⟨negative, ⟨infinite, by decide⟩⟩

/-- The number that is not a number. -/
def nan : Double := ⟨false, ⟨infinite + fractions / 2, by decide⟩⟩

instance : Inhabited Double := ⟨zero false⟩

/-- Whether `x` is not a number. -/
def isNaN (x : Double) : Bool := infinite < x.magnitude.val

/-- Whether `x` is neither infinite nor NaN. -/
def isFinite (x : Double) : Bool := x.magnitude.val < infinite

/-- Whether `x` is one of the two zeros. -/
def isZero (x : Double) : Bool := x.magnitude.val == 0

/-- The number with the other sign. -/
def neg (x : Double) : Double := { x with negative := !x.negative }

/-- The place of a number that is not NaN in the order of values. -/
def key (x : Double) : Int :=
  if x.negative then -(x.magnitude.val : Int) else x.magnitude.val

/-- Whether `x` is smaller than `y`; never if one of them is NaN. -/
def lt (x y : Double) : Bool := !x.isNaN && !y.isNaN && decide (x.key < y.key)

/-- Equality of values: the zeros are equal and NaN differs from all. -/
def equal (x y : Double) : Bool := !x.isNaN && !y.isNaN && decide (x.key = y.key)

/-- The place of `x` in the total order, which tells all numbers apart. -/
def rank (x : Double) : Int :=
  if x.negative then -(x.magnitude.val : Int) - 1 else x.magnitude.val

/-- Whether `x` comes no later than `y` in the total order. -/
def rankLe (x y : Double) : Bool := decide (x.rank ≤ y.rank)

/-- The mantissa of a finite number, below `2 ^ 53`. -/
def mantissa (x : Double) : Nat :=
  if x.magnitude.val / fractions = 0 then x.magnitude.val
  else x.magnitude.val % fractions + fractions

/-- The power of two that the mantissa of a finite number counts. -/
def exponent (x : Double) : Int :=
  (max (x.magnitude.val / fractions) 1 : Nat) - 1075

/-- The quotient rounded to the nearest integer, a tie to the even one. -/
def roundedQuotient (num den : Nat) : Nat :=
  let floor := num / den
  let rest := num % den
  if 2 * rest < den then floor
  else if den < 2 * rest then floor + 1
  else floor + floor % 2

/-- The largest `k` with `2 ^ k ≤ num / den`, for positive `num` and `den`. -/
def quotientLog2 (num den : Nat) : Int :=
  let k : Int := (num.log2 : Int) - den.log2
  if num <<< (-k).toNat < den <<< k.toNat then k - 1 else k

/-- The number with a sign and a magnitude; infinity if the magnitude is no finite one. -/
def ofMagnitude (negative : Bool) (n : Nat) : Double :=
  if h : n < infinite then ⟨negative, ⟨n, Nat.lt_trans h (by decide)⟩⟩ else infinity negative

/-- The double nearest to `num / den` (`0 < den`), with the given sign. A
number too large for the format becomes infinite. -/
def ofRatio (negative : Bool) (num den : Nat) : Double :=
  if num = 0 then zero negative
  else
    let q := max (-1074) (quotientLog2 num den - 52)
    let m := roundedQuotient (num <<< (-q).toNat) (den <<< q.toNat)
    ofMagnitude negative ((q + 1074).toNat * fractions + m)

/-- The double nearest to an integer. -/
def ofInt (n : Int) : Double := ofRatio (n < 0) n.natAbs 1

/-- The product of finite numbers, rounded. -/
def mul (x y : Double) : Double :=
  let e := x.exponent + y.exponent
  ofRatio (x.negative != y.negative) ((x.mantissa * y.mantissa) <<< e.toNat) (1 <<< (-e).toNat)

/-- The quotient of a finite number by a finite one that is not zero, rounded. -/
def div (x y : Double) : Double :=
  let e := x.exponent - y.exponent
  ofRatio (x.negative != y.negative) (x.mantissa <<< e.toNat) (y.mantissa <<< (-e).toNat)

/-- The integer nearest to a finite number, a half going away from zero. -/
def roundedInt (x : Double) : Int :=
  let num := x.mantissa <<< x.exponent.toNat
  let den := 1 <<< (-x.exponent).toNat
  let n : Int := ((2 * num + den) / (2 * den) : Nat)
  if x.negative then -n else n

/-- The total order tells all numbers apart. -/
theorem ext_of_rank {x y : Double} (h : x.rank = y.rank) : x = y := by
  obtain ⟨nx, mx⟩ := x
  obtain ⟨ny, my⟩ := y
  simp only [rank] at h
  cases nx <;> cases ny <;> simp only [Bool.false_eq_true, if_false, if_true] at h
  · rw [Fin.ext (by omega : mx.val = my.val)]
  · omega
  · omega
  · rw [Fin.ext (by omega : mx.val = my.val)]

/-- A number equals itself unless it is NaN. -/
theorem equal_self (x : Double) : x.equal x = !x.isNaN := by
  simp [equal]

end Double
end FilmCatalog
