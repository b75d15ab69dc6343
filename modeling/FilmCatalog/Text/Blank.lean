/-!
# Blank characters and trimming

The blank characters are those with the Unicode property `White_Space`.
Trimming removes them from both ends of a text and leaves the inside alone.

Key definitions: `Text.isBlank`, `Text.trim`.
-/

namespace FilmCatalog.Text

/-- The Unicode property `White_Space`. -/
def isBlank (c : Char) : Bool :=
  let n := c.toNat
  (9 ≤ n && n ≤ 13) || n == 0x20 || n == 0x85 || n == 0xA0 || n == 0x1680 ||
    (0x2000 ≤ n && n ≤ 0x200A) || n == 0x2028 || n == 0x2029 || n == 0x202F ||
    n == 0x205F || n == 0x3000

/-- The characters without the blank ones at both ends. -/
def trimChars (cs : List Char) : List Char :=
  ((cs.dropWhile isBlank).reverse.dropWhile isBlank).reverse

/-- The text without the blank characters at both ends. -/
def trim (s : String) : String :=
  String.ofList (trimChars s.toList)

/-- The trimmed text, if anything is left of it. -/
def nonBlank? (s : String) : Option String :=
  let t := trim s
  if t.isEmpty then none else some t

/-- The same text with `A` to `Z` written small. -/
def lower (s : String) : String :=
  String.ofList (s.toList.map Char.toLower)

end FilmCatalog.Text
