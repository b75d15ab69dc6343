import FilmCatalog.Number.Double

/-!
# SQL fragments

A fragment is SQL text with values in between. Values get their placeholders
`$1`, `$2`, … only when the whole statement is written, so a fragment can be
put anywhere. Text that meets text becomes one piece.

Key definitions: `SqlValue`, `Fragment`, `Fragment.append`, `Fragment.writeOn`,
`Fragment.toStatement`.
Key theorems: `Fragment.values_append`.
-/

namespace FilmCatalog

/-- A value bound to a placeholder. Integers are taken as 64-bit ones unless
they are `int4`; a time stamp may be missing. -/
inductive SqlValue where
  | bool (b : Bool)
  | int4 (n : Int)
  | int8 (n : Int)
  | float8 (x : Double)
  | text (s : String)
  | texts (xs : List String)
  | ints (xs : List Int)
  | floats (xs : List Double)
  | timestamp (seconds : Option Int)
  deriving DecidableEq, Repr

namespace SqlValue

/-- The type of a value as the database names it. -/
def typeName : SqlValue → String
  | .bool _ => "bool"
  | .int4 _ => "int4"
  | .int8 _ => "int8"
  | .float8 _ => "float8"
  | .text _ => "text"
  | .texts _ => "text[]"
  | .ints _ => "int8[]"
  | .floats _ => "float8[]"
  | .timestamp _ => "timestamptz"

/-- Equality of values, doubles as numbers: both zeros are equal and NaN
differs from itself. -/
def same : SqlValue → SqlValue → Bool
  | .float8 x, .float8 y => x.equal y
  | .floats xs, .floats ys => xs.length == ys.length && (xs.zip ys).all fun (x, y) => x.equal y
  | a, b => a == b

end SqlValue

/-- A statement with its placeholders, and the values in their order. -/
structure Statement where
  sql : String
  args : List SqlValue
  deriving DecidableEq, Repr

/-- A part of a fragment. -/
inductive Piece where
  | sql (text : String)
  | value (v : SqlValue)
  deriving DecidableEq, Repr

/-- SQL text with values in between. -/
structure Fragment where
  pieces : List Piece
  deriving DecidableEq, Repr

namespace Fragment

/-- The fragment without pieces. -/
def empty : Fragment := ⟨[]⟩

/-- Puts a piece behind others; text joins text. -/
def addPiece : List Piece → Piece → List Piece
  | [], p => [p]
  | [.sql s], .sql t => [.sql (s ++ t)]
  | q :: rest, p => q :: addPiece rest p

/-- The fragment with text behind it. -/
def push (f : Fragment) (text : String) : Fragment := ⟨addPiece f.pieces (.sql text)⟩

/-- The fragment with a value behind it. -/
def pushValue (f : Fragment) (v : SqlValue) : Fragment := ⟨addPiece f.pieces (.value v)⟩

/-- One fragment behind another. -/
def append (f g : Fragment) : Fragment := ⟨g.pieces.foldl addPiece f.pieces⟩

instance : Append Fragment := ⟨append⟩

/-- The fragment of a text. -/
def text (s : String) : Fragment := ⟨[.sql s]⟩

/-- The fragment of a value. -/
def value (v : SqlValue) : Fragment := ⟨[.value v]⟩

/-- Fragments one behind the other with a text between each two. -/
def joined (separator : String) : List Fragment → Fragment
  | [] => empty
  | f :: rest => rest.foldl (fun done g => done.push separator ++ g) f

/-- The values of pieces in their order. -/
def valuesOf : List Piece → List SqlValue
  | [] => []
  | .sql _ :: rest => valuesOf rest
  | .value v :: rest => v :: valuesOf rest

/-- The values of a fragment in their order. -/
def values (f : Fragment) : List SqlValue := valuesOf f.pieces

/-- Writes a piece behind a statement; a value gets the next placeholder. -/
def writePiece (s : Statement) : Piece → Statement
  | .sql t => { s with sql := s.sql ++ t }
  | .value v => ⟨s.sql ++ "$" ++ toString (s.args.length + 1), s.args ++ [v]⟩

/-- Writes a fragment behind a statement. -/
def writeOn (f : Fragment) (s : Statement) : Statement := f.pieces.foldl writePiece s

/-- The statement of a fragment alone. -/
def toStatement (f : Fragment) : Statement := f.writeOn ⟨"", []⟩

/-- Equality of pieces, with values compared as numbers. -/
def samePiece : Piece → Piece → Bool
  | .sql s, .sql t => s == t
  | .value v, .value w => v.same w
  | _, _ => false

/-- Equality of fragments, with values compared as numbers. -/
def same (f g : Fragment) : Bool :=
  f.pieces.length == g.pieces.length && (f.pieces.zip g.pieces).all fun (p, q) => samePiece p q

theorem valuesOf_addPiece (ps : List Piece) (p : Piece) :
    valuesOf (addPiece ps p) = valuesOf ps ++ valuesOf [p] := by
  fun_induction addPiece ps p with
  | case1 => simp [valuesOf]
  | case2 => simp [valuesOf]
  | case3 q rest p _ ih => cases q <;> simp [valuesOf, ih]

theorem valuesOf_foldl (qs ps : List Piece) :
    valuesOf (qs.foldl addPiece ps) = valuesOf ps ++ valuesOf qs := by
  induction qs generalizing ps with
  | nil => simp [valuesOf]
  | cons q qs ih => cases q <;> simp [ih, valuesOf_addPiece, valuesOf]

/-- The values of one fragment behind another are those of both, in order. -/
theorem values_append (f g : Fragment) : (f ++ g).values = f.values ++ g.values :=
  valuesOf_foldl g.pieces f.pieces

end Fragment
end FilmCatalog
