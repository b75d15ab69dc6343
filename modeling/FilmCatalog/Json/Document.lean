import FilmCatalog.Json.Value
import FilmCatalog.Number.Numeral
import FilmCatalog.Text.Utf8

/-!
# JSON text as written

A document is the structure of a JSON text before its numerals and quoted
texts are given a meaning. A numeral may be out of range, and a quoted text
may name half of a surrogate pair or, in a byte string, have bytes that belong
to no character; nothing of this matters in a part that its reader ignores,
and all of it is refused where a value is wanted.

`Document.value?` gives the value of a whole document: at most 127 levels
deep, the last of several members of one name counting.

Key definitions: `Json.Document`, `Json.Document.ofText?`,
`Json.Document.ofBytes?`, `Json.Document.value?`.
-/

namespace FilmCatalog.Json

/-- The structure of a JSON text. A quoted text is `none` if it stands for no text. -/
inductive Document where
  | null
  | bool (b : Bool)
  | numeral (n : Numeral)
  | text (s : Option String)
  | array (items : List Document)
  | object (members : List (Option String × Document))
  deriving Inhabited

namespace Document

/-- A place in a text: a character, or nothing for bytes that belong to no
character. Only inside a quoted text may there be nothing. -/
abbrev Letter := Option Char

/-- Whether a letter is one of the four characters that may stand between the
parts of a JSON text. -/
def isSpace (l : Letter) : Bool :=
  l = some ' ' || l = some '\n' || l = some '\r' || l = some '\t'

/-- The text from its first letter that is no space. -/
def skipSpace (ls : List Letter) : List Letter := ls.dropWhile isSpace

/-- The value of a digit of base sixteen. -/
def hexValue? (c : Char) : Option Nat :=
  if '0' ≤ c ∧ c ≤ '9' then some (c.toNat - 48)
  else if 'a' ≤ c ∧ c ≤ 'f' then some (c.toNat - 87)
  else if 'A' ≤ c ∧ c ≤ 'F' then some (c.toNat - 55)
  else none

/-- A part of a quoted text: a character, a number after `\u`, or bytes that
belong to no character. -/
inductive Unit16 where
  | char (c : Char)
  | unit (n : Nat)
  | broken

/-- The character that a one-letter escape stands for. -/
def shortEscape? (c : Char) : Option Char :=
  match c with
  | '"' => some '"'
  | '\\' => some '\\'
  | '/' => some '/'
  | 'b' => some '\x08'
  | 'f' => some '\x0c'
  | 'n' => some '\n'
  | 'r' => some '\r'
  | 't' => some '\t'
  | _ => none

/-- The number of four digits of base sixteen. -/
def hexUnit? (a b c d : Char) : Option Nat := do
  let a ← hexValue? a
  let b ← hexValue? b
  let c ← hexValue? c
  let d ← hexValue? d
  pure (((a * 16 + b) * 16 + c) * 16 + d)

/-- Reads a quoted text after its opening mark, up to and with the closing one. -/
def readUnits : List Letter → Option (List Unit16 × List Letter)
  | [] => none
  | some '"' :: rest => some ([], rest)
  | some '\\' :: some 'u' :: some a :: some b :: some c :: some d :: rest => do
    let n ← hexUnit? a b c d
    let (units, rest) ← readUnits rest
    pure (.unit n :: units, rest)
  | some '\\' :: some c :: rest => do
    let e ← shortEscape? c
    let (units, rest) ← readUnits rest
    pure (.char e :: units, rest)
  | some c :: rest =>
    if c.toNat < 0x20 ∨ c = '\\' then none
    else do
      let (units, rest) ← readUnits rest
      pure (.char c :: units, rest)
  | none :: rest => do
    let (units, rest) ← readUnits rest
    pure (.broken :: units, rest)

/-- The text that units stand for: two halves of a surrogate pair are one
character; half a pair is none, and neither are bytes of no character. -/
def joinUnits : List Unit16 → Option (List Char)
  | [] => some []
  | .char c :: rest => (joinUnits rest).map (c :: ·)
  | .broken :: _ => none
  | .unit n :: rest =>
    if n < 0xD800 ∨ 0xDFFF < n then (joinUnits rest).map (Char.ofNat n :: ·)
    else match rest with
      | .unit m :: rest =>
        if n < 0xDC00 ∧ 0xDC00 ≤ m ∧ m ≤ 0xDFFF then
          (joinUnits rest).map (Char.ofNat (0x10000 + (n - 0xD800) * 0x400 + (m - 0xDC00)) :: ·)
        else none
      | _ => none

/-- Reads a quoted text after its opening mark. -/
def readText (ls : List Letter) : Option (Option String × List Letter) := do
  let (units, rest) ← readUnits ls
  pure ((joinUnits units).map String.ofList, rest)

/-- Reads the digits of an integer: zero alone, or digits that do not start with zero. -/
def readWhole (cs : List Char) : Option (List Nat × List Char) :=
  match spanDigits cs with
  | ([], _) => none
  | ([0], rest) => some ([0], rest)
  | (0 :: _, _) => none
  | (ds, rest) => some (ds, rest)

/-- Reads a point and digits, if there is a point. -/
def readFraction (cs : List Char) : Option (Option (List Nat) × List Char) :=
  match cs with
  | '.' :: rest =>
    match spanDigits rest with
    | ([], _) => none
    | (ds, rest) => some (some ds, rest)
  | _ => some (none, cs)

/-- Reads an exponent, if there is one. -/
def readExponent (cs : List Char) : Option (Option Int × List Char) :=
  match cs with
  | c :: rest =>
    if c = 'e' ∨ c = 'E' then
      let (negative, rest) := match rest with
        | '-' :: more => (true, more)
        | '+' :: more => (false, more)
        | _ => (false, rest)
      match spanDigits rest with
      | ([], _) => none
      | (ds, rest) =>
        let e : Int := natOfDigits ds
        some (some (if negative then -e else e), rest)
    else some (none, cs)
  | [] => some (none, [])

/-- The numeral that characters are. -/
def numeralOfChars? (cs : List Char) : Option Numeral := do
  let (negative, cs) := match cs with
    | '-' :: rest => (true, rest)
    | _ => (false, cs)
  let (whole, cs) ← readWhole cs
  let (fraction, cs) ← readFraction cs
  let (exponent, cs) ← readExponent cs
  if cs.isEmpty then some ⟨negative, whole, fraction, exponent⟩ else none

/-- Whether a character may be part of a numeral. -/
def isNumeralChar (c : Char) : Bool :=
  c.isDigit || c = '-' || c = '+' || c = '.' || c = 'e' || c = 'E'

/-- The characters of a numeral at the front of a text, and what follows them. -/
def spanNumeral : List Letter → List Char × List Letter
  | some c :: rest =>
    if isNumeralChar c then
      let (own, rest) := spanNumeral rest
      (c :: own, rest)
    else ([], some c :: rest)
  | ls => ([], ls)

/-- Reads a numeral. No character of one can follow it. -/
def readNumeral (ls : List Letter) : Option (Numeral × List Letter) := do
  let (own, rest) := spanNumeral ls
  let n ← numeralOfChars? own
  pure (n, rest)

/-- Reads a given word. -/
def readWord : List Char → List Letter → Option (List Letter)
  | [], ls => some ls
  | w :: ws, l :: ls => if l = some w then readWord ws ls else none
  | _ :: _, [] => none

mutual

/-- Reads a document that may have spaces in front. The fuel bounds the number
of parts read; the length of the text is enough. -/
def read : Nat → List Letter → Option (Document × List Letter)
  | 0, _ => none
  | fuel + 1, ls =>
    match skipSpace ls with
    | some '[' :: rest =>
      match skipSpace rest with
      | some ']' :: rest => some (.array [], rest)
      | rest => do
        let (items, rest) ← readItems fuel rest
        pure (.array items, rest)
    | some '\x7b' :: rest =>
      match skipSpace rest with
      | some '\x7d' :: rest => some (.object [], rest)
      | rest => do
        let (members, rest) ← readMembers fuel rest
        pure (.object members, rest)
    | some '"' :: rest => do
      let (s, rest) ← readText rest
      pure (.text s, rest)
    | some 'n' :: rest => (readWord ['u', 'l', 'l'] rest).map (.null, ·)
    | some 't' :: rest => (readWord ['r', 'u', 'e'] rest).map (.bool true, ·)
    | some 'f' :: rest => (readWord ['a', 'l', 's', 'e'] rest).map (.bool false, ·)
    | rest => do
      let (n, rest) ← readNumeral rest
      pure (.numeral n, rest)

/-- Reads the items of an array that has some, and its closing bracket. -/
def readItems : Nat → List Letter → Option (List Document × List Letter)
  | 0, _ => none
  | fuel + 1, ls => do
    let (item, rest) ← read fuel ls
    match skipSpace rest with
    | some ',' :: rest =>
      let (items, rest) ← readItems fuel rest
      pure (item :: items, rest)
    | some ']' :: rest => pure ([item], rest)
    | _ => none

/-- Reads the members of an object that has some, and its closing bracket. -/
def readMembers : Nat → List Letter → Option (List (Option String × Document) × List Letter)
  | 0, _ => none
  | fuel + 1, ls =>
    match skipSpace ls with
    | some '"' :: rest => do
      let (name, rest) ← readText rest
      match skipSpace rest with
      | some ':' :: rest =>
        let (v, rest) ← read fuel rest
        match skipSpace rest with
        | some ',' :: rest =>
          let (members, rest) ← readMembers fuel rest
          pure ((name, v) :: members, rest)
        | some '\x7d' :: rest => pure ([(name, v)], rest)
        | _ => none
      | _ => none
    | _ => none

end

/-- The document that a whole text is. -/
def ofLetters? (ls : List Letter) : Option Document := do
  let (d, rest) ← read (2 * ls.length + 2) ls
  if (skipSpace rest).isEmpty then some d else none

/-- The document that a text is. -/
def ofText? (s : String) : Option Document := ofLetters? (s.toList.map some)

/-- The document that a byte string is. Bytes that belong to no character are
refused everywhere but in an ignored quoted text. -/
def ofBytes? (bytes : ByteArray) : Option Document := ofLetters? (Text.Utf8.decode bytes)

end Document
end FilmCatalog.Json

namespace FilmCatalog.Numeral

/-- The integer that a numeral without point and exponent stands for, if it
fits 64 bits, with or without sign. A zero with a minus sign is a double. -/
def integer? (n : Numeral) : Option Int :=
  if n.fraction.isSome || n.exponent.isSome then none
  else
    let value := natOfDigits n.whole
    if n.negative then if value = 0 then none else IntRange.long.check? (-(value : Int))
    else IntRange.longWord.check? value

/-- The double that a numeral stands for where a double is wanted. -/
def double? (n : Numeral) : Option Double :=
  match n.integer? with
  | some i => some (Double.ofInt i)
  | none => n.approximate?

end FilmCatalog.Numeral

namespace FilmCatalog.Json.Document

/-- Puts a member in front unless the name comes again. -/
def addMember (name : String) (v : Json) (members : List (String × Json)) : List (String × Json) :=
  if members.any (·.1 == name) then members else (name, v) :: members

mutual

/-- The value of a document at most `depth` levels deep. -/
def valueAt (depth : Nat) : Document → Option Json
  | .null => some .null
  | .bool b => some (.bool b)
  | .numeral n =>
    match n.integer? with
    | some i => some (.int i)
    | none => n.approximate?.map .double
  | .text s => s.map .text
  | .array items => if depth = 0 then none else (itemsAt (depth - 1) items).map .array
  | .object members => if depth = 0 then none else (membersAt (depth - 1) members).map .object

/-- The values of the items of an array. -/
def itemsAt (depth : Nat) : List Document → Option (List Json)
  | [] => some []
  | d :: rest => do
    let v ← valueAt depth d
    let vs ← itemsAt depth rest
    pure (v :: vs)

/-- The values of the members of an object, the last one of a name counting. -/
def membersAt (depth : Nat) : List (Option String × Document) → Option (List (String × Json))
  | [] => some []
  | (name, d) :: rest => do
    let name ← name
    let v ← valueAt depth d
    let members ← membersAt depth rest
    pure (addMember name v members)

end

/-- The value of a document. -/
def value? (d : Document) : Option Json := valueAt 127 d

end FilmCatalog.Json.Document

namespace FilmCatalog.Json

/-- The value of a text. -/
def ofText? (s : String) : Option Json := (Document.ofText? s).bind (·.value?)

end FilmCatalog.Json
