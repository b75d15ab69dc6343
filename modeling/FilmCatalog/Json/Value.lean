import FilmCatalog.Number.Layout
import FilmCatalog.Text.Hex

/-!
# JSON values and their text

Integers and doubles are told apart. The compact text has no spaces and keeps
the members of an object in their order; `canonical` sorts the members at
every level first, so that it depends on the value alone. Quotation marks,
backslashes and the control characters below U+0020 are escaped; a number
that is not finite is written `null`.

Key definitions: `Json`, `Json.compact`, `Json.pretty`, `Json.canonical`.
-/

namespace FilmCatalog

/-- A JSON value. -/
inductive Json where
  | null
  | bool (b : Bool)
  | int (n : Int)
  | double (x : Double)
  | text (s : String)
  | array (items : List Json)
  | object (members : List (String × Json))
  deriving Inhabited

namespace Json

/-- A character as it is written inside a quoted text. -/
def escape (c : Char) : List Char :=
  if c = '"' then ['\\', '"']
  else if c = '\\' then ['\\', '\\']
  else if c = '\x08' then ['\\', 'b']
  else if c = '\x0c' then ['\\', 'f']
  else if c = '\n' then ['\\', 'n']
  else if c = '\r' then ['\\', 'r']
  else if c = '\t' then ['\\', 't']
  else if c.toNat < 0x20 then
    ['\\', 'u', '0', '0', Text.hexDigit (c.toNat / 16), Text.hexDigit (c.toNat % 16)]
  else [c]

/-- A text in quotation marks. -/
def quote (s : String) : String :=
  "\"" ++ String.ofList (s.toList.flatMap escape) ++ "\""

/-- The text of a value that holds no others. -/
def scalar : Json → String
  | .bool true => "true"
  | .bool false => "false"
  | .int n => toString n
  | .double x => if x.isFinite then x.jsonText else "null"
  | .text s => quote s
  | _ => "null"

/-- An opening bracket, the parts with commas between them, a closing bracket. -/
def enclose (first last : String) (parts : List String) : String :=
  first ++ String.intercalate "," parts ++ last

mutual

/-- The text of a value, without spaces. -/
def compact : Json → String
  | .array items => enclose "[" "]" (compactItems items)
  | .object members => enclose "\x7b" "\x7d" (compactMembers members)
  | v => scalar v

/-- The texts of the items of an array. -/
def compactItems : List Json → List String
  | [] => []
  | v :: rest => compact v :: compactItems rest

/-- The texts of the members of an object. -/
def compactMembers : List (String × Json) → List String
  | [] => []
  | (name, v) :: rest => (quote name ++ ":" ++ compact v) :: compactMembers rest

end

/-- Parts on lines of their own between two brackets. -/
def block (first last : String) (indent : Nat) (parts : List String) : String :=
  if parts.isEmpty then first ++ last
  else
    let line (depth : Nat) : String := "\n" ++ String.ofList (List.replicate (2 * depth) ' ')
    first ++ line (indent + 1) ++ String.intercalate ("," ++ line (indent + 1)) parts ++
      line indent ++ last

mutual

/-- The text of a value over several lines, each level indented by two spaces. -/
def prettyAt (indent : Nat) : Json → String
  | .array items => block "[" "]" indent (prettyItems (indent + 1) items)
  | .object members => block "\x7b" "\x7d" indent (prettyMembers (indent + 1) members)
  | v => scalar v

/-- The texts of the items of an array over several lines. -/
def prettyItems (indent : Nat) : List Json → List String
  | [] => []
  | v :: rest => prettyAt indent v :: prettyItems indent rest

/-- The texts of the members of an object over several lines. -/
def prettyMembers (indent : Nat) : List (String × Json) → List String
  | [] => []
  | (name, v) :: rest => (quote name ++ ": " ++ prettyAt indent v) :: prettyMembers indent rest

end

/-- The text of a value over several lines. -/
def pretty (v : Json) : String := prettyAt 0 v

/-- Members in the order of their names. -/
def byName (members : List (String × Json)) : List (String × Json) :=
  members.mergeSort fun a b => decide (a.1 ≤ b.1)

mutual

/-- The value with the members of every object in the order of their names. -/
def sorted : Json → Json
  | .array items => .array (sortedItems items)
  | .object members => .object (byName (sortedMembers members))
  | v => v

/-- Every item sorted inside. -/
def sortedItems : List Json → List Json
  | [] => []
  | v :: rest => sorted v :: sortedItems rest

/-- Every member sorted inside. -/
def sortedMembers : List (String × Json) → List (String × Json)
  | [] => []
  | (name, v) :: rest => (name, sorted v) :: sortedMembers rest

end

/-- The text of a value that does not depend on the order of members. -/
def canonical (v : Json) : String := v.sorted.compact

/-- The value of a text, or null. -/
def ofOption {α : Type} (f : α → Json) : Option α → Json
  | some a => f a
  | none => .null

/-- An array of values of one kind. -/
def ofList {α : Type} (f : α → Json) (xs : List α) : Json := .array (xs.map f)

/-- The value of the first member of a name. -/
def member? (v : Json) (name : String) : Option Json :=
  match v with
  | .object members => members.lookup name
  | _ => none

end Json
end FilmCatalog
