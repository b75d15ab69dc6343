/-!
# Digits of base sixteen

Key definitions: `Text.hexDigit`.
-/

namespace FilmCatalog.Text

/-- A digit of base sixteen, small letters. -/
def hexDigit (n : Nat) : Char :=
  if n < 10 then Char.ofNat (48 + n) else Char.ofNat (87 + n)

end FilmCatalog.Text
