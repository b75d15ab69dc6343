import FilmCatalog.Number.Double

/-!
# Shortest decimal digits

The digits written for a double are the fewest that read back as that
double and, of those, the nearest to it; of two equally near ones the even
one or the larger one, as the text asks for. A decimal reads back as a double
if it lies between the two midpoints to the neighbouring doubles, midpoints
included exactly if the mantissa is even.

The search goes through the grids of one, two, … seventeen digits and tests
on each the two grid points around the number.

Key definitions: `Double.Spread`, `Double.Tie`, `Double.shortest`.
-/

namespace FilmCatalog.Double

/-- A positive number and the interval of reals that read back as it, all
four counted in `2 ^ unit`. -/
structure Spread where
  low : Nat
  value : Nat
  high : Nat
  unit : Int
  closed : Bool

/-- The reals that read back as a positive finite number. The gap below a
power of two is half the gap above it. -/
def spread (x : Double) : Spread :=
  let m := x.mantissa
  { low := if m = fractions && decide (-1074 < x.exponent) then 4 * m - 1 else 4 * m - 2
    value := 4 * m
    high := 4 * m + 2
    unit := x.exponent - 2
    closed := m % 2 == 0 }

/-- A decimal number `digits * 10 ^ scale`. -/
structure Decimal where
  digits : Nat
  scale : Int
  deriving DecidableEq, Repr

/-- Factors that bring `2 ^ unit` and `10 ^ scale` to integers: the first is to
`2 ^ unit` as the second is to `10 ^ scale`. -/
def commonUnit (unit scale : Int) : Nat × Nat :=
  (Nat.pow 10 (-scale).toNat <<< unit.toNat, Nat.pow 10 scale.toNat <<< (-unit).toNat)

/-- Which of two equally near grid points is taken. -/
inductive Tie where
  | even
  | up
  deriving DecidableEq, Repr

/-- The choice between a grid point and the next. -/
def Tie.choose (t : Tie) (below : Nat) : Nat :=
  match t with
  | .even => below + below % 2
  | .up => below + 1

/-- The point of the grid of multiples of `10 ^ scale` that reads back as the
number and is nearest to it, if there is one. -/
def Spread.onGrid? (s : Spread) (tie : Tie) (scale : Int) : Option Nat :=
  let (two, ten) := commonUnit s.unit scale
  let value := s.value * two
  let inside (n : Nat) : Bool :=
    if s.closed then decide (s.low * two ≤ n * ten) && decide (n * ten ≤ s.high * two)
    else decide (s.low * two < n * ten) && decide (n * ten < s.high * two)
  let below := value / ten
  let above := below + 1
  let belowFits := below ≠ 0 && inside below
  let down := value - below * ten
  let up := above * ten - value
  if belowFits && inside above then
    if down < up then some below
    else if up < down then some above
    else some (tie.choose below)
  else if belowFits then some below
  else if inside above then some above
  else none

/-- The largest `k` with `10 ^ k ≤ value`, found from an estimate that is at
most one too small. -/
def Spread.log10 (s : Spread) : Int :=
  let estimate := (((s.value.log2 : Int) + s.unit) * 30103) / 100000
  let reaches (k : Int) : Bool :=
    let (two, ten) := commonUnit s.unit k
    decide (ten ≤ s.value * two)
  if reaches (estimate + 1) then estimate + 1
  else if reaches estimate then estimate
  else estimate - 1

/-- Moves zeros at the end of the digits into the scale. -/
def Decimal.stripped : Nat → Decimal → Decimal
  | 0, d => d
  | fuel + 1, d =>
    if d.digits ≠ 0 ∧ d.digits % 10 = 0 then
      Decimal.stripped fuel ⟨d.digits / 10, d.scale + 1⟩
    else d

/-- The shortest decimal that reads back as the number, from the grid of
`17 - left` digits on. -/
def Spread.search (s : Spread) (tie : Tie) (top : Int) : Nat → Decimal
  | 0 => ⟨0, 0⟩
  | left + 1 =>
    let scale := top - (16 - (left : Int))
    match s.onGrid? tie scale with
    | some n => Decimal.stripped 18 ⟨n, scale⟩
    | none => s.search tie top left

/-- The shortest decimal that reads back as the absolute value of a finite number. -/
def shortest (x : Double) (tie : Tie) : Decimal :=
  if x.isZero then ⟨0, 0⟩
  else
    let s := x.spread
    s.search tie s.log10 17

end FilmCatalog.Double
