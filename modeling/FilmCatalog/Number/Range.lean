/-!
# Ranges of integers

The integers of 32 and 64 bits, with and without sign.

Key definitions: `IntRange`, `IntRange.holds`.
-/

namespace FilmCatalog

/-- The integers from `low` to `high`. -/
structure IntRange where
  low : Int
  high : Int
  deriving DecidableEq, Repr

namespace IntRange

/-- The integers of 32 bits, from `-2 ^ 31`. -/
def short : IntRange := ⟨-2147483648, 2147483647⟩

/-- The integers of 64 bits, from `-2 ^ 63`. -/
def long : IntRange := ⟨-9223372036854775808, 9223372036854775807⟩

/-- The integers of 32 bits without sign, below `2 ^ 32`. -/
def word : IntRange := ⟨0, 4294967295⟩

/-- The integers of 64 bits without sign, below `2 ^ 64`. -/
def longWord : IntRange := ⟨0, 18446744073709551615⟩

/-- Whether an integer is in the range. -/
def holds (r : IntRange) (n : Int) : Bool := decide (r.low ≤ n) && decide (n ≤ r.high)

/-- The integer if it is in the range. -/
def check? (r : IntRange) (n : Int) : Option Int := if r.holds n then some n else none

end IntRange
end FilmCatalog
