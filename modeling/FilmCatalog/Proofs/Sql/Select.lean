import FilmCatalog.Proofs.Sql.Gathering

/-!
# Selecting posts

One statement that selects post rows with their gathered children, with its
text and with what it gives over tables, clause by clause. `FROM` joins the
children to the rows, `WHERE` keeps the rows for which every condition is true,
`ORDER BY` sorts them, and `LIMIT` cuts them while each row still tells how
many there were.

Key definitions: `PostColumn`, `JoinedRow`, `Select`, `Select.statement`, `Select.source`,
`Select.found`, `Select.answer`.
Key theorem: `selectRows_eq`.
-/

namespace FilmCatalog

open Sql

/-- A post row with the children that were joined to it. -/
structure JoinedRow where
  post : PostRecord
  colors : Option (List ColorRecord)
  keywords : Option (List KeywordRecord)
  deriving DecidableEq, Repr

namespace Sql

/-- The columns of a post row. -/
inductive PostColumn where
  | id
  | url
  | title
  | author
  | permalink
  | score
  | nsfw
  | grayscale
  | sprocket
  | time
  | width
  | height
  | lowUrl
  | lowWidth
  | lowHeight
  | mediumUrl
  | mediumWidth
  | mediumHeight
  | highUrl
  | highWidth
  | highHeight
  deriving DecidableEq, Repr

namespace PostColumn

/-- The name of a column. -/
def name : PostColumn → String
  | .id => "id"
  | .url => "url"
  | .title => "title"
  | .author => "author"
  | .permalink => "permalink"
  | .score => "score"
  | .nsfw => "nsfw"
  | .grayscale => "grayscale"
  | .sprocket => "sprocket"
  | .time => "time"
  | .width => "width"
  | .height => "height"
  | .lowUrl => "low_url"
  | .lowWidth => "low_width"
  | .lowHeight => "low_height"
  | .mediumUrl => "medium_url"
  | .mediumWidth => "medium_width"
  | .mediumHeight => "medium_height"
  | .highUrl => "high_url"
  | .highWidth => "high_width"
  | .highHeight => "high_height"

/-- What a row has in a column. -/
def cell (r : PostRecord) : PostColumn → Cell
  | .id => .int r.id
  | .url => .text r.url
  | .title => .text r.title
  | .author => .text r.author
  | .permalink => .text r.permalink
  | .score => .int r.score
  | .nsfw => .bool r.nsfw
  | .grayscale => .bool r.grayscale
  | .sprocket => .bool r.sprocket
  | .time => .int r.time
  | .width => .int r.width
  | .height => .int r.height
  | .lowUrl => .text r.lowUrl
  | .lowWidth => .int r.lowWidth
  | .lowHeight => .int r.lowHeight
  | .mediumUrl => .text r.mediumUrl
  | .mediumWidth => .int r.mediumWidth
  | .mediumHeight => .int r.mediumHeight
  | .highUrl => .text r.highUrl
  | .highWidth => .int r.highWidth
  | .highHeight => .int r.highHeight

/-- All columns, as a listing has them. -/
def all : List PostColumn :=
  [.id, .url, .title, .author, .permalink, .score, .nsfw, .grayscale, .sprocket, .time, .width,
    .height, .lowUrl, .lowWidth, .lowHeight, .mediumUrl, .mediumWidth, .mediumHeight, .highUrl,
    .highWidth, .highHeight]

end PostColumn

/-- A statement that selects posts. Its conditions must all be true. -/
structure Select where
  columns : List PostColumn
  colors : Join .colors
  keywords : Join .keywords
  conditions : List Formula
  order : List SortKey
  limit : Option Int

/-- The rows that a test keeps, unless it fails for one. -/
def selectRows {α : Type} (test : α → Except Failure Bool) : List α → Except Failure (List α)
  | [] => .ok []
  | a :: rest => do
    let b ← test a
    let kept ← selectRows test rest
    pure (if b then a :: kept else kept)

theorem selectRows_eq {α : Type} {test : α → Except Failure Bool} {P : α → Prop} [DecidablePred P]
    (rows : List α) (h : ∀ a ∈ rows, ∃ b, test a = .ok b ∧ (b = true ↔ P a)) :
    selectRows test rows = .ok (rows.filter P) := by
  induction rows with
  | nil => rfl
  | cons a rest ih =>
    obtain ⟨b, hb, hiff⟩ := h a List.mem_cons_self
    rw [selectRows, hb, ih fun x hx => h x (List.mem_cons_of_mem _ hx),
      List.filter_cons]
    cases b with
    | true => rw [if_pos (decide_eq_true (hiff.1 rfl))]; rfl
    | false => rw [if_neg (by simpa using hiff)]; rfl

namespace Select

/-! ## Text -/

/-- The names of the selected columns in SQL. -/
def columnList (s : Select) : String :=
  ", ".intercalate (s.columns.map (fun c => "p." ++ c.name) ++ s.colors.columns ++
    s.keywords.columns ++ ["COUNT(*) OVER() AS total_count"])

/-- The conditions in SQL, if there are any. -/
def whereClause (s : Select) : Option Fragment :=
  if s.conditions.isEmpty then none
  else some (Fragment.joined " AND " (s.conditions.map Formula.fragment))

/-- The sort keys in SQL. -/
def orderBy (s : Select) : Fragment := Fragment.joined ", " (s.order.map SortKey.fragment)

open Fragment in
/-- The statement in SQL, all but its limit. -/
def fragment (s : Select) : Fragment :=
  text ("SELECT " ++ s.columnList ++ " FROM posts p ") ++ s.colors.fragment ++ text " " ++
    s.keywords.fragment ++
    (match s.whereClause with
      | some conditions => text " WHERE " ++ conditions
      | none => empty) ++
    text " ORDER BY " ++ s.orderBy

/-- The limit in SQL. -/
def limitSql (s : Select) : String :=
  match s.limit with
  | some n => " LIMIT " ++ toString n
  | none => ""

/-- The statement with its placeholders and values. -/
def statement (s : Select) : Statement :=
  { s.fragment.toStatement with sql := s.fragment.toStatement.sql ++ s.limitSql }

/-! ## Meaning -/

variable (D : Dialect) (t : Tables) (s : Select)

/-- `FROM`: the post rows with their joined children. -/
def joined : List JoinedRow :=
  t.posts.flatMap fun p =>
    (s.colors.partners D t p.id).flatMap fun cs =>
      (s.keywords.partners D t p.id).map fun ks => ⟨p, cs, ks⟩

/-- `WHERE`: whether every condition is true for a row. -/
def keeps (r : PostRecord) : Except Failure Bool := do
  let values ← s.conditions.mapM fun f => f.value D r
  pure (values.all (· == some true))

/-- `FROM` and `WHERE`. -/
def source : Except Failure (List JoinedRow) :=
  selectRows (fun j => s.keeps D j.post) (s.joined D t)

/-- What a row is sorted by: rows come by their first values, those with equal
ones by the second, and so on. -/
def place (r : PostRecord) : Except Failure (List Int) := s.order.mapM fun k => k.value r

/-- `FROM`, `WHERE` and `ORDER BY`. -/
def found : Except Failure (List JoinedRow) := do
  let rows ← s.source D t
  let placed ← rows.mapM fun j => do
    let place ← s.place j.post
    pure (place, j)
  pure ((placed.mergeSort fun a b => decide (a.1 ≤ b.1)).map (·.2))

/-- `LIMIT`. -/
def limited {α : Type} (rows : List α) : List α :=
  match s.limit with
  | some n => rows.take n.toNat
  | none => rows

/-- The result row of a joined row, `total` being the number of all rows. -/
def row (total : Nat) (j : JoinedRow) : Row :=
  s.columns.map (fun c => (c.name, c.cell j.post)) ++ s.colors.item.cells j.colors ++
    s.keywords.item.cells j.keywords ++ [("total_count", .int total)]

/-- The result rows. -/
def answer : Except Failure (List Row) := do
  let rows ← s.found D t
  pure ((s.limited rows).map (s.row rows.length))

end Select
end Sql
end FilmCatalog
