import FilmCatalog.Json.Value
import FilmCatalog.Number.Numeral
import FilmCatalog.Text.Blank

/-!
# Trees of settings

Settings come in layers, each a list of values with the paths at which they
belong. Laying a layer over a tree replaces what was at these paths, but an
object is laid over what is there member by member, a value that is no object
making room for one. So does, on the way to a path, whatever is no object or
no array where one is needed.

A path is a name, then members `.name` and items `[n]`; `n` fits 64 bits, and
a negative one counts from the end. A key that is no such path is a name as it stands.

Key definitions: `TreeStep`, `TreePath`, `TreePath.ofText`, `Json.changeAt`,
`Json.overlaid`, `Json.withLayer`.
-/

namespace FilmCatalog

/-- A step into a tree. -/
inductive TreeStep where
  | member (name : String)
  | item (index : Int)
  deriving DecidableEq, Repr

/-- The place of a value in a tree, from the root down. -/
abbrev TreePath := List TreeStep

namespace TreePath

/-- Whether a character may stand in a name on a path. -/
def isNameChar (c : Char) : Bool := c.isAlphanum || c = '_' || c = '-'

/-- Reads a name, which is not empty. -/
def readName (cs : List Char) : Option (String × List Char) :=
  match cs.span isNameChar with
  | ([], _) => none
  | (name, rest) => some (String.ofList name, rest)

/-- Reads an index that fits 64 bits and the bracket that closes it; blanks may
surround the index. -/
def readIndex (cs : List Char) : Option (Int × List Char) :=
  let isSpace (c : Char) : Bool := c = ' ' || c = '\t'
  let (negative, cs) := match cs.dropWhile isSpace with
    | '-' :: rest => (true, rest)
    | rest => (false, rest)
  match spanDigits cs with
  | ([], _) => none
  | (ds, rest) =>
    match rest.dropWhile isSpace with
    | ']' :: rest =>
      let index : Int := if negative then -(natOfDigits ds : Int) else natOfDigits ds
      (IntRange.long.check? index).map (·, rest)
    | _ => none

/-- Reads the steps that follow the first name. The fuel bounds their number;
the length of the text is enough. -/
def readSteps : Nat → List Char → Option TreePath
  | _, [] => some []
  | fuel + 1, '.' :: rest => do
    let (name, rest) ← readName rest
    pure (.member name :: (← readSteps fuel rest))
  | fuel + 1, '[' :: rest => do
    let (index, rest) ← readIndex rest
    pure (.item index :: (← readSteps fuel rest))
  | _, _ => none

/-- The path of a key. -/
def ofText (key : String) : TreePath :=
  let cs := key.toList
  ((readName cs).bind fun (name, rest) =>
    (readSteps rest.length rest).map (.member name :: ·)).getD [.member key]

end TreePath

namespace Json

/-- The members of an object; any other value has none. -/
def members : Json → List (String × Json)
  | .object ms => ms
  | _ => []

/-- The items of an array; any other value has none. -/
def items : Json → List Json
  | .array vs => vs
  | _ => []

/-- Changes the value of a name; a name that is not there comes last and had null. -/
def changeMember (name : String) (f : Json → Json) : List (String × Json) → List (String × Json)
  | [] => [(name, f .null)]
  | (other, v) :: rest =>
    if other = name then (name, f v) :: rest else (other, v) :: changeMember name f rest

/-- Changes the item of an index. An array that does not reach so far is made
longer with nulls, at its end or, for a negative index, at its front. -/
def changeItem (index : Int) (f : Json → Json) (vs : List Json) : List Json :=
  let place : Int := if index < 0 then vs.length + index else index
  let vs := List.replicate (-place).toNat .null ++ vs
  let vs := vs ++ List.replicate (place.toNat + 1 - vs.length) .null
  vs.modify place.toNat f

/-- Changes the value at a path. -/
def changeAt : TreePath → (Json → Json) → Json → Json
  | [], f, v => f v
  | .member name :: path, f, v => .object (changeMember name (changeAt path f) v.members)
  | .item index :: path, f, v => .array (changeItem index (changeAt path f) v.items)

mutual

/-- A value with another laid over it: an object member by member, any other
value in its place. -/
def overlaid (v : Json) : Json → Json
  | .object ms => overlaidMembers (.object v.members) ms
  | w => w

/-- A value with members laid over it. -/
def overlaidMembers (v : Json) : List (String × Json) → Json
  | [] => v
  | (name, w) :: rest =>
    overlaidMembers (.object (changeMember name (fun old => overlaid old w) v.members)) rest

end

/-- A tree with a layer laid over it. -/
def withLayer (tree : Json) (layer : List (String × Json)) : Json :=
  layer.foldl (fun t (key, w) => t.changeAt (TreePath.ofText key) fun v => v.overlaid w) tree

end Json
end FilmCatalog
