import FilmCatalog.Number.Double
import FilmCatalog.Number.Range

/-!
# Reading numbers

A numeral is a number as written: sign, digits before the point, digits after
it and an exponent. Its value is exact, and `nearest` is the double nearest to
it. `approximate` is the cheaper reading of JSON text: the digits that fit 64
bits are rounded to a double, which is then multiplied or divided by a power
of ten and rounded again, so long numerals may miss the nearest double.

`Double.ofText?` reads the texts that a command line accepts for a number.

Key definitions: `Numeral`, `Numeral.nearest`, `Numeral.approximate?`,
`Double.ofText?`, `integerOfText?`, `naturalOfText?`.
-/

namespace FilmCatalog

/-- The value of a decimal digit. -/
def digitValue? (c : Char) : Option Nat :=
  if '0' ≤ c ∧ c ≤ '9' then some (c.toNat - '0'.toNat) else none

/-- The digits at the front of a text, and what follows them. -/
def spanDigits : List Char → List Nat × List Char
  | [] => ([], [])
  | c :: rest =>
    match digitValue? c with
    | some d => (d :: (spanDigits rest).1, (spanDigits rest).2)
    | none => ([], c :: rest)

/-- The number that digits stand for. -/
def natOfDigits (ds : List Nat) : Nat := ds.foldl (fun n d => 10 * n + d) 0

/-- An integer: a sign at will and at least one digit, nothing else. -/
def integerOfText? (s : String) : Option Int :=
  let (negative, cs) := match s.toList with
    | '-' :: rest => (true, rest)
    | '+' :: rest => (false, rest)
    | cs => (false, cs)
  match spanDigits cs with
  | ([], _) => none
  | (ds, []) => some (if negative then -(natOfDigits ds : Int) else natOfDigits ds)
  | (_, _ :: _) => none

/-- A natural number: a plus sign at will and at least one digit, nothing else. -/
def naturalOfText? (s : String) : Option Nat :=
  let cs := match s.toList with
    | '+' :: rest => rest
    | cs => cs
  match spanDigits cs with
  | ([], _) => none
  | (ds, []) => some (natOfDigits ds)
  | (_, _ :: _) => none

/-- A number as written. -/
structure Numeral where
  negative : Bool
  whole : List Nat
  /-- The digits after the point, if there is a point. -/
  fraction : Option (List Nat)
  /-- The power of ten after the exponent mark, if there is a mark. -/
  exponent : Option Int
  deriving DecidableEq, Repr

namespace Numeral

/-- The digits without the point. -/
def digits (n : Numeral) : List Nat := n.whole ++ n.fraction.getD []

/-- The power of ten that the last digit counts. -/
def scale (n : Numeral) : Int := n.exponent.getD 0 - (n.fraction.getD []).length

/-- The double nearest to the numeral. Numerals far outside the range of
doubles are decided by their length, without computing the power of ten. -/
def nearest (n : Numeral) : Double :=
  let value := natOfDigits n.digits
  let top := (n.digits.dropWhile (· = 0)).length + n.scale
  if value = 0 then Double.zero n.negative
  else if 320 < top then Double.infinity n.negative
  else if top < -330 then Double.zero n.negative
  else Double.ofRatio n.negative (value * Nat.pow 10 n.scale.toNat) (Nat.pow 10 (-n.scale).toNat)

/-- The largest number of 64 bits. -/
def maxWord : Nat := IntRange.longWord.high.toNat

/-- Takes digits as long as the number stays within 64 bits; gives the number
and how many digits were taken. -/
def fill : Nat → List Nat → Nat × Nat
  | n, [] => (n, 0)
  | n, d :: ds =>
    if maxWord < 10 * n + d then (n, 0)
    else ((fill (10 * n + d) ds).1, (fill (10 * n + d) ds).2 + 1)

/-- The digits that fit 64 bits and the power of ten that they count. Digits
of the whole part that do not fit count as zeros; of the fraction they are
left out. -/
def significand (n : Numeral) : Nat × Int :=
  let (whole, taken) := fill 0 n.whole
  let cut : Int := (n.whole.length : Int) - taken
  let (all, places) := fill whole (n.fraction.getD [])
  (all, cut - places)

/-- The double of `10 ^ n`. -/
def powerOfTen (n : Nat) : Double := Double.ofRatio false (Nat.pow 10 n) 1

/-- `x` over `10 ^ n` in steps of at most `10 ^ 308`. -/
def scaleDown : Nat → Double → Nat → Double
  | 0, x, _ => x
  | fuel + 1, x, n =>
    if n ≤ 308 then x.div (powerOfTen n)
    else if x.isZero then x
    else scaleDown fuel (x.div (powerOfTen 308)) (n - 308)

/-- The reading of a numeral in two roundings; none if it is out of range. The
exponent is capped where it no longer matters. -/
def approximate? (n : Numeral) : Option Double :=
  let (word, power) := n.significand
  let e := n.exponent.getD 0
  let x := Double.ofInt word
  let magnitude : Option Double :=
    if e < -IntRange.short.high then some (Double.zero false)
    else if IntRange.short.high < e then if word = 0 then some x else none
    else
      let scale := power + e
      if scale < 0 then some (scaleDown 5 x (-scale).toNat)
      else if scale ≤ 308 then
        let y := x.mul (powerOfTen scale.toNat)
        if y.isFinite then some y else none
      else if word = 0 then some x else none
  magnitude.map fun x => if n.negative then x.neg else x

end Numeral

namespace Double

/-- A number without its sign: digits with at most one point, at least one
digit, and an exponent at will. -/
def numeralOfChars? (negative : Bool) (cs : List Char) : Option Numeral :=
  let (whole, rest) := spanDigits cs
  let (fraction, rest) := match rest with
    | '.' :: more => (some (spanDigits more).1, (spanDigits more).2)
    | _ => (none, rest)
  if whole.isEmpty && (fraction.getD []).isEmpty then none
  else match rest with
    | [] => some ⟨negative, whole, fraction, none⟩
    | c :: more =>
      if c = 'e' ∨ c = 'E' then
        (integerOfText? (String.ofList more)).map fun e => ⟨negative, whole, fraction, some e⟩
      else none

/-- A number in text: a numeral, `inf`, `infinity` or `nan` in any case, each
with a sign at will. -/
def ofText? (s : String) : Option Double :=
  let (negative, cs) := match s.toList with
    | '-' :: rest => (true, rest)
    | '+' :: rest => (false, rest)
    | cs => (false, cs)
  match String.ofList (cs.map Char.toLower) with
  | "inf" | "infinity" => some (infinity negative)
  | "nan" => some (if negative then nan.neg else nan)
  | _ => (numeralOfChars? negative cs).map Numeral.nearest

end Double
end FilmCatalog
