import FilmCatalog.Number.Shortest

/-!
# Number texts

The shortest digits of a double are laid out in two ways. In JSON text a
number from `10 ^ -5` up to `10 ^ 16` has a point and at least one digit on
each side of it; any other has one digit before the point and an exponent
with a sign. In a page address every number is positional and whole numbers
have no point. Of two shortest decimals equally near, JSON text has the even
one and a page address the larger one.

Key definitions: `Double.jsonText`, `Double.plainText`, `Double.text`.
-/

namespace FilmCatalog.Double

/-- `n` zeros. -/
def zeros (n : Nat) : String := String.ofList (List.replicate n '0')

/-- The decimal as digits before and after the point, the first never empty. -/
def Decimal.sides (d : Decimal) : String × String :=
  let cs := (toString d.digits).toList
  if 0 ≤ d.scale then (String.ofList cs ++ zeros d.scale.toNat, "")
  else
    let places := (-d.scale).toNat
    if places < cs.length then
      (String.ofList (cs.take (cs.length - places)), String.ofList (cs.drop (cs.length - places)))
    else ("0", zeros (places - cs.length) ++ String.ofList cs)

/-- The power of ten of the first digit. -/
def Decimal.leading (d : Decimal) : Int :=
  ((toString d.digits).length : Int) - 1 + d.scale

/-- Digits with a point and at least one digit after it. -/
def Decimal.pointed (d : Decimal) : String :=
  let (whole, rest) := d.sides
  whole ++ "." ++ (if rest.isEmpty then "0" else rest)

/-- One digit, the others after a point, and the exponent with its sign. -/
def Decimal.scientific (d : Decimal) : String :=
  let cs := (toString d.digits).toList
  let e := d.leading
  String.ofList (cs.take 1) ++ (if cs.length ≤ 1 then "" else "." ++ String.ofList (cs.drop 1)) ++
    "e" ++ (if e < 0 then "-" else "+") ++ toString e.natAbs

/-- The sign in front of a text. -/
def signed (x : Double) (s : String) : String := if x.negative then "-" ++ s else s

/-- The text of a finite number in JSON. -/
def jsonText (x : Double) : String :=
  let d := x.shortest .even
  x.signed <|
    if x.isZero then "0.0"
    else if -5 ≤ d.leading && d.leading < 16 then d.pointed
    else d.scientific

/-- The text of a finite number without exponent and without a useless point. -/
def plainText (x : Double) : String :=
  let (whole, rest) := (x.shortest .up).sides
  x.signed (if rest.isEmpty then whole else whole ++ "." ++ rest)

/-- The text of any number: JSON's, and names for the others. -/
def text (x : Double) : String :=
  if x.isNaN then "NaN"
  else if x.isFinite then x.jsonText
  else x.signed "inf"

end FilmCatalog.Double
