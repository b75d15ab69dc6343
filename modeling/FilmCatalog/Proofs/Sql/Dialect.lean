import FilmCatalog.Number.Double
import FilmCatalog.Proofs.Sql.Pattern

/-!
# What a database decides

Two things are a database's own: how it lowers characters where case is
ignored, and how it sums doubles, whose roundings depend on the order in which
it takes them. A `Dialect` is a choice of both. `Dialect.plain` is one: it
lowers `A` to `Z` and adds from the first row to the last.

Comparisons of doubles are not a choice. Both zeros are equal, and NaN equals
itself and is greater than every number.

Key definitions: `Double.standing`, `Double.below`, `Dialect`, `Double.add`, `Dialect.plain`.
-/

namespace FilmCatalog

namespace Double

/-- The place of a double in the order of a database. -/
def standing (x : Double) : Int := if x.isNaN then infinite + 1 else x.key

/-- Whether a double is smaller than another in that order. -/
def below (x y : Double) : Bool := decide (x.standing < y.standing)

/-- A finite double as a multiple of a power of two no larger than its own. -/
def multiple (x : Double) (exponent : Int) : Int :=
  let n : Int := x.mantissa <<< (x.exponent - exponent).toNat
  if x.negative then -n else n

/-- The sum, rounded. Infinities of different signs have none. -/
def add (x y : Double) : Double :=
  if x.isNaN || y.isNaN then nan
  else if !x.isFinite then if !y.isFinite && x.negative != y.negative then nan else x
  else if !y.isFinite then y
  else
    let e := min x.exponent y.exponent
    let n := x.multiple e + y.multiple e
    if n = 0 then zero (x.negative && y.negative)
    else ofRatio (n < 0) (n.natAbs <<< e.toNat) (1 <<< (-e).toNat)

end Double

namespace Sql

/-- What a database decides for itself. -/
structure Dialect extends Lowering where
  /-- The sum of some doubles, in the order in which their rows are stored. -/
  sum : List Double → Double

theorem isMark_eq_false_of_isAlpha {c : Char} (h : c.isAlpha = true) : isMark c = false := by
  simp only [isMark, Bool.or_eq_false_iff, decide_eq_false_iff_not]
  refine ⟨⟨?_, ?_⟩, ?_⟩ <;> rintro rfl <;> exact absurd h (by decide)

theorem isMark_toLower (c : Char) : isMark c.toLower = isMark c := by
  by_cases h : c.isUpper = true
  · have hc : c.isAlpha = true := by simp [Char.isAlpha, h]
    have hl : c.toLower.isAlpha = true := by
      rw [Char.isAlpha, Char.isLower_toLower_eq_isAlpha, hc, Bool.or_true]
    rw [isMark_eq_false_of_isAlpha hc, isMark_eq_false_of_isAlpha hl]
  · rw [Char.toLower_eq_of_not_isUpper h]

/-- Lowers `A` to `Z` and adds from the first row to the last. -/
def Dialect.plain : Dialect where
  lower c := [c.toLower]
  lower_mark c h := by
    simp only [isMark, Bool.or_eq_true, decide_eq_true_eq] at h
    rcases h with (rfl | rfl) | rfl <;> rfl
  lower_plain c h d hd := by
    rw [List.mem_singleton.1 hd, isMark_toLower, h]
  sum xs := xs.foldl Double.add (Double.zero false)

end Sql
end FilmCatalog
