import FilmCatalog.Json.Document

/-!
# Strict decoding

A decoder reads one kind of value from a document. It accepts no other kind,
except that an integer may stand where a double is wanted. A record is an
object with every known member once, in any order and possibly among others,
or an array of exactly the values of its members in their order.

Key definitions: `Json.Decoder`, `Json.Decoder.fields`, `Json.Decoder.list`.
-/

namespace FilmCatalog.Json

/-- Reads one kind of value from a document. -/
abbrev Decoder (α : Type) := Document → Option α

namespace Decoder

/-- A truth value. -/
def bool : Decoder Bool
  | .bool b => some b
  | _ => none

/-- A text. -/
def text : Decoder String
  | .text s => s
  | _ => none

/-- An integer in a range. -/
def intIn (range : IntRange) : Decoder Int
  | .numeral n => n.integer?.bind range.check?
  | _ => none

/-- A signed integer of 64 bits. -/
def int64 : Decoder Int := intIn .long

/-- A signed integer of 32 bits. -/
def int32 : Decoder Int := intIn .short

/-- An integer of 64 bits without sign. -/
def word64 : Decoder Nat := fun d => (intIn .longWord d).map Int.toNat

/-- A double. -/
def double : Decoder Double
  | .numeral n => n.double?
  | _ => none

/-- Nothing, written `null`, or a value. -/
def optional {α : Type} (f : Decoder α) : Decoder (Option α)
  | .null => some none
  | d => (f d).map some

/-- A list of values of one kind. -/
def list {α : Type} (f : Decoder α) : Decoder (List α)
  | .array items => items.mapM f
  | _ => none

/-- The values of the members of one name. -/
def named (name : String) (members : List (Option String × Document)) : List Document :=
  members.filterMap fun m => if m.1 = some name then some m.2 else none

/-- The parts of a record with the given names, in their order. -/
def fields (names : List String) : Decoder (List Document)
  | .object members =>
    if members.all (·.1.isSome) then
      names.mapM fun name =>
        match named name members with
        | [d] => some d
        | _ => none
    else none
  | .array items => if items.length = names.length then some items else none
  | _ => none

/-- The value in a byte string. -/
def ofBytes? {α : Type} (f : Decoder α) (bytes : ByteArray) : Option α :=
  (Document.ofBytes? bytes).bind f

/-- The value in a text. -/
def ofText? {α : Type} (f : Decoder α) (s : String) : Option α :=
  (Document.ofText? s).bind f

/-- Any value. -/
def value : Decoder Json := Document.value?

end Decoder
end FilmCatalog.Json
