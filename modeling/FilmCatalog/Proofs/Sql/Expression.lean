import FilmCatalog.Listing.Sql
import FilmCatalog.Proofs.Result
import FilmCatalog.Proofs.Sql.Tables

/-!
# Expressions

The expressions that a listing uses, with their text and with their value for a
post row. `MOD` truncates toward zero, and a division by zero or a refused
pattern fails the statement. A comparison with a null is null, and `AND` and
`OR` have three values.

A conjunction or disjunction stands in parentheses, so that formulas can be
joined by `AND` as they are. Every condition of a listing is the text of a
formula and every order the text of a list of sort keys: `fragment_formula` and
`fragment_keys` say so, and they are what ties the meaning to the statement.

Key definitions: `IntTerm`, `Formula`, `Formula.value`, `SortKey`, `Condition.formula`,
`RowOrder.keys`.
Key theorems: `fragment_formula`, `fragment_keys`.
-/

namespace FilmCatalog
namespace Sql

/-- Why a statement fails. -/
inductive Failure where
  | divisionByZero
  /-- A pattern ends in the middle of an escape. -/
  | badPattern
  deriving DecidableEq, Repr

/-- The columns of a post row that hold integers and that listings compare. -/
inductive IntColumn where
  | id
  | score
  | time
  | width
  | height
  deriving DecidableEq, Repr

namespace IntColumn

/-- The name of a column. -/
def name : IntColumn → String
  | .id => "p.id"
  | .score => "p.score"
  | .time => "p.time"
  | .width => "p.width"
  | .height => "p.height"

/-- The value of a column. -/
def value (r : PostRecord) : IntColumn → Int
  | .id => r.id
  | .score => r.score
  | .time => r.time
  | .width => r.width
  | .height => r.height

end IntColumn

/-- An integer: a column, a bound value or a remainder. -/
inductive IntTerm where
  | column (c : IntColumn)
  | bound (n : Int)
  | mod (a b : IntTerm)
  deriving DecidableEq, Repr

namespace IntTerm

open Fragment in
/-- A term in SQL. -/
def fragment : IntTerm → Fragment
  | .column c => text c.name
  | .bound n => Fragment.value (.int8 n)
  | .mod a b => text "MOD(" ++ a.fragment ++ text ", " ++ b.fragment ++ text ")"

/-- The value of a term for a row. -/
def value (r : PostRecord) : IntTerm → Except Failure Int
  | .column c => .ok (c.value r)
  | .bound n => .ok n
  | .mod a b => do
    let x ← a.value r
    let y ← b.value r
    if y = 0 then throw .divisionByZero
    pure (x.tmod y)

end IntTerm

/-- The comparisons of a listing. -/
inductive Comparison where
  | less
  | greater
  | equal
  | range (e : RangeEnd)
  deriving DecidableEq, Repr

namespace Comparison

/-- A comparison in SQL. -/
def sql : Comparison → String
  | .less => " < "
  | .greater => " > "
  | .equal => " = "
  | .range .atLeast => " >= "
  | .range .atMost => " <= "

/-- Whether two values compare so, given their places in an order. -/
def holds (a b : Int) : Comparison → Bool
  | .less => decide (a < b)
  | .greater => decide (b < a)
  | .equal => decide (a = b)
  | .range .atLeast => decide (b ≤ a)
  | .range .atMost => decide (a ≤ b)

end Comparison

/-- A truth value about a post row. -/
inductive Formula where
  | compare (a : IntTerm) (c : Comparison) (b : IntTerm)
  /-- `a::float8 / NULLIF(b, 0)` compared with a bound value. -/
  | ratio (a b : IntColumn) (c : Comparison) (bound : Double)
  | flag (f : Flag) (b : Bool)
  | author (name : String)
  | like (pattern : String)
  | among (ids : List Int)
  | both (a b : Formula)
  | either (a b : Formula)
  deriving DecidableEq, Repr

/-- `NULLIF`: a value, or null if it is the other one. -/
def nullIf (a b : Int) : Option Int := if a = b then none else some a

/-- The quotient of two integers as doubles. -/
def quotient (a b : Int) : Except Failure Double :=
  if b = 0 then .error .divisionByZero else .ok ((Double.ofInt a).div (Double.ofInt b))

/-- `AND` with a null for what is not known. -/
def both3 : Option Bool → Option Bool → Option Bool
  | some false, _ => some false
  | _, some false => some false
  | some true, some true => some true
  | _, _ => none

/-- `OR` with a null for what is not known. -/
def either3 : Option Bool → Option Bool → Option Bool
  | some true, _ => some true
  | _, some true => some true
  | some false, some false => some false
  | _, _ => none

@[simp] theorem both3_some (a b : Bool) : both3 (some a) (some b) = some (a && b) := by
  cases a <;> cases b <;> rfl

@[simp] theorem either3_some (a b : Bool) : either3 (some a) (some b) = some (a || b) := by
  cases a <;> cases b <;> rfl

namespace Formula

open Fragment in
/-- A formula in SQL. -/
def fragment : Formula → Fragment
  | .compare a c b => a.fragment ++ text c.sql ++ b.fragment
  | .ratio a b c bound =>
    text (a.name ++ "::float8 / NULLIF(" ++ b.name ++ ", 0)" ++ c.sql) ++
      Fragment.value (.float8 bound)
  | .flag .nsfw b => text "p.nsfw = " ++ Fragment.value (.bool b)
  | .flag .grayscale b => text "p.grayscale = " ++ Fragment.value (.bool b)
  | .flag .sprocket b => text "p.sprocket = " ++ Fragment.value (.bool b)
  | .author name => text "p.author = " ++ Fragment.value (.text name)
  | .like pattern => text "p.title ILIKE " ++ Fragment.value (.text pattern)
  | .among ids => text "p.id = ANY(" ++ Fragment.value (.ints ids) ++ text ")"
  | .both a b => text "(" ++ a.fragment ++ text " AND " ++ b.fragment ++ text ")"
  | .either a b => text "(" ++ a.fragment ++ text " OR " ++ b.fragment ++ text ")"

/-- The value of a formula for a row; none stands for null. -/
def value (D : Dialect) (r : PostRecord) : Formula → Except Failure (Option Bool)
  | .compare a c b => do
    let x ← a.value r
    let y ← b.value r
    pure (some (c.holds x y))
  | .ratio a b c bound =>
    match nullIf (b.value r) 0 with
    | none => .ok none
    | some d => do
      let q ← quotient (a.value r) d
      pure (some (c.holds q.standing bound.standing))
  | .flag .nsfw b => .ok (some (r.nsfw == b))
  | .flag .grayscale b => .ok (some (r.grayscale == b))
  | .flag .sprocket b => .ok (some (r.sprocket == b))
  | .author name => .ok (some (r.author == name))
  | .like pattern =>
    match iLike D.toLowering pattern r.title with
    | some b => .ok (some b)
    | none => .error .badPattern
  | .among ids => .ok (some (decide (r.id ∈ ids)))
  | .both a b => do
    let x ← a.value D r
    let y ← b.value D r
    pure (both3 x y)
  | .either a b => do
    let x ← a.value D r
    let y ← b.value D r
    pure (either3 x y)

end Formula

/-- What rows are sorted by, and whether the greatest comes first. -/
structure SortKey where
  term : IntTerm
  descending : Bool
  deriving DecidableEq, Repr

namespace SortKey

open Fragment in
/-- A sort key in SQL. -/
def fragment (k : SortKey) : Fragment :=
  k.term.fragment ++ text (if k.descending then " DESC" else " ASC")

/-- What a row is compared by: the smaller comes first. -/
def value (r : PostRecord) (k : SortKey) : Except Failure Int := do
  let n ← k.term.value r
  pure (if k.descending then -n else n)

end SortKey

end Sql

open Sql

/-- A condition of a listing as a formula. -/
def Condition.formula : Condition → Formula
  | .timeBefore cursor => .compare (.column .time) .less (.bound cursor)
  | .scoreBefore cursor => .compare (.column .score) .less (.bound cursor)
  | .shuffledAfter seed cursor =>
    let bucket : IntTerm := .mod (.column .time) (.bound seed)
    let reached : IntTerm := .mod (.bound cursor) (.bound seed)
    .either (.compare bucket .greater reached)
      (.both (.compare bucket .equal reached) (.compare (.column .time) .less (.bound cursor)))
  | .flagIs flag b => .flag flag b
  | .idAmong ids => .among ids
  | .titleLike pattern => .like pattern
  | .authorIs author => .author author
  | .sideWithin .width limit bound => .compare (.column .width) (.range limit) (.bound bound)
  | .sideWithin .height limit bound => .compare (.column .height) (.range limit) (.bound bound)
  | .ratioWithin limit bound => .ratio .width .height (.range limit) bound

/-- The sort keys of an order, the first one first. -/
def RowOrder.keys : RowOrder → List SortKey
  | .latest => [⟨.column .time, true⟩, ⟨.column .id, true⟩]
  | .best => [⟨.column .score, true⟩, ⟨.column .time, true⟩, ⟨.column .id, true⟩]
  | .shuffled seed =>
    [⟨.mod (.column .time) (.bound seed), false⟩, ⟨.column .time, true⟩, ⟨.column .id, true⟩]

namespace Sql

theorem eq_of_pieces {f g : Fragment} (h : f.pieces = g.pieces) : f = g := by
  cases f
  cases g
  exact congrArg _ h

theorem pieces_append (f g : Fragment) :
    (f ++ g).pieces = g.pieces.foldl Fragment.addPiece f.pieces := rfl

/-- A condition is written as its formula. -/
theorem fragment_formula (c : Condition) : c.formula.fragment = c.fragment := by
  refine eq_of_pieces ?_
  cases c with
  | sideWithin side limit bound =>
    cases side <;> cases limit <;>
      simp [Condition.formula, Formula.fragment, Condition.fragment, pieces_append, Fragment.text,
        Fragment.value, Fragment.addPiece, IntTerm.fragment, IntColumn.name, Comparison.sql,
        Side.column, RangeEnd.sql]
  | ratioWithin limit bound =>
    cases limit <;>
      simp [Condition.formula, Formula.fragment, Condition.fragment, pieces_append, Fragment.text,
        Fragment.value, Fragment.addPiece, IntColumn.name, Comparison.sql, RangeEnd.sql]
  | flagIs flag b =>
    cases flag <;> simp [Condition.formula, Formula.fragment, Condition.fragment, Flag.column]
  | _ =>
    simp [Condition.formula, Formula.fragment, Condition.fragment, pieces_append, Fragment.text,
      Fragment.value, Fragment.addPiece, IntTerm.fragment, IntColumn.name, Comparison.sql]

/-- An order is written as its sort keys. -/
theorem fragment_keys (o : RowOrder) :
    Fragment.joined ", " (o.keys.map SortKey.fragment) = o.fragment := by
  refine eq_of_pieces ?_
  cases o <;>
    simp [RowOrder.keys, RowOrder.fragment, SortKey.fragment, Fragment.joined, Fragment.push,
      pieces_append, Fragment.text, Fragment.value, Fragment.addPiece, IntTerm.fragment,
      IntColumn.name]

end Sql
end FilmCatalog
