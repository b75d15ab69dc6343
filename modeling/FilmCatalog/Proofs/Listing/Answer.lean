import FilmCatalog.Database.Posts
import FilmCatalog.Proofs.Sql.Assembly
import FilmCatalog.Proofs.Sql.Select

/-!
# What a database answers to a listing

The statement of a listing query as a syntax that has a meaning over tables
(`ListingQuery.select`): a set of posts for the wanted colors and one for the
wanted words, a join of each child table, conditions, sort keys and a limit.
What is sent to the database is this syntax written down, each part of it and
the whole (`writes_select`), so the answer to a listing is what its text means.

A snapshot of tables is a link that answers listings, and a page is what the
store reads over it.

Key definitions: `ListingQuery.select`, `Sql.Select.Writes`, `ListingQuery.source`,
`ListingQuery.found`, `ListingQuery.answer`, `Sql.Tables.snapshot`, `Sql.Tables.page`,
`Sql.Tables.post`.
Key theorem: `writes_select`.
-/

namespace FilmCatalog

open Sql

/-! ## The statement of a query -/

/-- The posts that have a color: its rows cover more than the share together. -/
def ColorPredicate.select (c : ColorPredicate) : IdSelect .colors :=
  ⟨.html, c.name, some (.percent, c.minPercent)⟩

/-- The posts that have a word. -/
def wordSelect (word : String) : IdSelect .keywords := ⟨.word, word, none⟩

namespace ListingQuery

/-- The arrays of a post's colors. -/
def colorAggregates : List (ArrayColumn .colors) :=
  [.texts .hex "hexes", .texts .css "csses", .texts .html "htmls", .doubles .percent "percents"]

/-- The arrays of a post's keywords. -/
def keywordAggregates : List (ArrayColumn .keywords) :=
  [.texts .word "words", .doubles .weight "weights"]

/-- The join of the colors. -/
def colorItem (q : ListingQuery) : Join .colors where
  outer := q.colors.isEmpty
  item := {
    order := .percent
    arrays := colorAggregates
    among := IdSet.ofList (q.colors.map ColorPredicate.select) }

/-- The join of the keywords. -/
def keywordItem (q : ListingQuery) : Join .keywords where
  outer := q.keywords.isEmpty
  item := {
    order := .weight
    arrays := keywordAggregates
    among := IdSet.ofList (q.keywords.map wordSelect) }

/-- A listing query as a statement that selects posts. -/
def select (q : ListingQuery) : Select where
  columns := PostColumn.all
  colors := q.colorItem
  keywords := q.keywordItem
  conditions := q.conditions.map Condition.formula
  order := q.order.keys
  limit := q.limit

end ListingQuery

/-- The statement that is written for a query, part by part. -/
structure Sql.Select.Writes (s : Select) (q : ListingQuery) : Prop where
  /-- Each wanted color restricts the posts, or none does. -/
  colorFilter : s.colors.item.among.map IdSet.fragment = q.colorFilter
  colorJoin : s.colors.sql = q.colorJoin.sql
  /-- Each wanted word restricts the posts, or none does. -/
  keywordFilter : s.keywords.item.among.map IdSet.fragment = q.keywordFilter
  keywordJoin : s.keywords.sql = q.keywordJoin.sql
  conditions : s.conditions.map Formula.fragment = q.conditions.map Condition.fragment
  whereClause : s.whereClause = q.whereClause
  orderBy : s.orderBy = q.order.fragment
  limit : s.limitSql = q.limitSql
  /-- The text with its placeholders and the values for them. -/
  whole : s.statement = q.statement

/-- A color is asked for by its subquery. -/
theorem fragment_colorSelect (c : ColorPredicate) : c.select.fragment = c.fragment := by
  refine eq_of_pieces ?_
  simp [ColorPredicate.select, IdSelect.fragment, ColorPredicate.fragment, pieces_append,
    Fragment.text, Fragment.value, Fragment.addPiece, ChildTable.name, TextColumn.name,
    DoubleColumn.name]

/-- A word is asked for by its subquery. -/
theorem fragment_wordSelect (word : String) : (wordSelect word).fragment = wordFragment word := by
  refine eq_of_pieces ?_
  simp [wordSelect, IdSelect.fragment, wordFragment, pieces_append, Fragment.text, Fragment.value,
    Fragment.addPiece, Fragment.empty, ChildTable.name, TextColumn.name]

/-- A set of posts is written as the intersection of its parts. -/
theorem fragment_ofList {c : ChildTable} {α : Type} {part : α → IdSelect c} {text : α → Fragment}
    (h : ∀ a, (part a).fragment = text a) (wanted : List α) :
    (IdSet.ofList (wanted.map part)).map IdSet.fragment = intersection? (wanted.map text) := by
  have hfold : ∀ (rest : List α) (first : IdSet c),
      ((rest.map part).foldl IdSet.intersect first).fragment =
        (rest.map text).foldl (fun done g => done.push " INTERSECT " ++ g) first.fragment := by
    intro rest
    induction rest with
    | nil => exact fun _ => rfl
    | cons a rest ih =>
      intro first
      rw [List.map_cons, List.foldl_cons, ih, IdSet.fragment, h]
      rfl
  cases wanted with
  | nil => rfl
  | cons a rest =>
    show some ((rest.map part).foldl IdSet.intersect (.one (part a))).fragment = some _
    rw [hfold, IdSet.fragment, h]
    rfl

/-- A child table is gathered with its arrays and its restriction. -/
theorem Sql.Gather.fragment_eq {c : ChildTable} {g : Gather c} {columns : String}
    {among : Option Fragment} (harrays : ", ".intercalate (g.arrays.map (·.sql g.order)) = columns)
    (hamong : g.among.map IdSet.fragment = among) :
    g.fragment = gathered c.name columns among := by
  rw [Gather.fragment, harrays, ← hamong]
  cases g.among <;> rfl

namespace ListingQuery

variable (q : ListingQuery)

theorem conditions_select :
    q.select.conditions.map Formula.fragment = q.conditions.map Condition.fragment := by
  rw [select, List.map_map]
  exact List.map_congr_left fun c _ => fragment_formula c

theorem whereClause_select : q.select.whereClause = q.whereClause := by
  rw [Select.whereClause, conditions_select, whereClause, select, List.isEmpty_map]

theorem columnList_select : q.select.columnList = postColumns ++
    ", c.hexes, c.csses, c.htmls, c.percents, k.words, k.weights" ++
      ", COUNT(*) OVER() AS total_count" := by
  have h : ", ".intercalate (PostColumn.all.map (fun c => "p." ++ c.name) ++
      (colorAggregates.map fun a => ChildTable.colors.shortName ++ "." ++ a.label) ++
      (keywordAggregates.map fun a => ChildTable.keywords.shortName ++ "." ++ a.label) ++
      ["COUNT(*) OVER() AS total_count"]) = postColumns ++
        ", c.hexes, c.csses, c.htmls, c.percents, k.words, k.weights" ++
          ", COUNT(*) OVER() AS total_count" := by decide +kernel
  exact h

theorem colorFilter_select : q.colorItem.item.among.map IdSet.fragment = q.colorFilter :=
  fragment_ofList fragment_colorSelect q.colors

theorem keywordFilter_select : q.keywordItem.item.among.map IdSet.fragment = q.keywordFilter :=
  fragment_ofList fragment_wordSelect q.keywords

theorem fragment_colors :
    q.colorItem.item.fragment = gathered "colors" colorColumns q.colorFilter := by
  have harrays : ", ".intercalate (colorAggregates.map (·.sql .percent)) = colorColumns := by
    decide +kernel
  exact Gather.fragment_eq harrays q.colorFilter_select

theorem fragment_keywords :
    q.keywordItem.item.fragment = gathered "keywords" keywordColumns q.keywordFilter := by
  have harrays : ", ".intercalate (keywordAggregates.map (·.sql .weight)) = keywordColumns := by
    decide +kernel
  exact Gather.fragment_eq harrays q.keywordFilter_select

theorem sql_colorItem : q.colorItem.sql = q.colorJoin.sql := by
  rw [Join.sql, colorJoin, JoinKind.ofWanted, colorItem]
  split <;> rfl

theorem sql_keywordItem : q.keywordItem.sql = q.keywordJoin.sql := by
  rw [Join.sql, keywordJoin, JoinKind.ofWanted, keywordItem]
  split <;> rfl

theorem orderBy_select : q.select.orderBy = q.order.fragment := fragment_keys q.order

/-- The whole statement has the same text and values in the same order. -/
theorem tokens_select : q.select.fragment.tokens = q.fragment.tokens := by
  have hcolors : q.select.colors.fragment = Fragment.text (q.colorJoin.sql ++ " ") ++
      gathered "colors" colorColumns q.colorFilter ++ Fragment.text " c ON c.post_id = p.id" := by
    rw [← sql_colorItem, ← fragment_colors]
    rfl
  have hkeywords : q.select.keywords.fragment = Fragment.text (q.keywordJoin.sql ++ " ") ++
      gathered "keywords" keywordColumns q.keywordFilter ++
        Fragment.text " k ON k.post_id = p.id" := by
    rw [← sql_keywordItem, ← fragment_keywords]
    rfl
  rw [Select.fragment, fragment, columnList_select, hcolors, hkeywords, whereClause_select,
    orderBy_select]
  -- both sides are one text, cut at different places
  have htotal : ", COUNT(*) OVER() AS total_count FROM posts p " =
      ", COUNT(*) OVER() AS total_count" ++ " FROM posts p " := by decide
  have hjoined : " c ON c.post_id = p.id " = " c ON c.post_id = p.id" ++ " " := by decide
  cases q.whereClause <;>
    simp only [htotal, hjoined, Fragment.tokens_append, Fragment.tokens_text,
      String.toList_append, List.map_append, List.append_assoc]

end ListingQuery

/-- A listing query is written as the statement that it stands for. -/
theorem writes_select (q : ListingQuery) : q.select.Writes q where
  colorFilter := q.colorFilter_select
  colorJoin := q.sql_colorItem
  keywordFilter := q.keywordFilter_select
  keywordJoin := q.sql_keywordItem
  conditions := q.conditions_select
  whereClause := q.whereClause_select
  orderBy := q.orderBy_select
  limit := rfl
  whole := by
    have h : q.select.fragment.toStatement = q.fragment.toStatement :=
      Fragment.writeOn_eq_of_tokens q.tokens_select _
    rw [Select.statement, ListingQuery.statement, h]
    rfl

/-! ## Result rows -/

/-- The result row of a joined row, `total` being the number of all rows. -/
def JoinedRow.cells (total : Nat) (j : JoinedRow) : Row :=
  let colors := j.colors.map (·.mergeSort ColorRecord.before)
  let keywords := j.keywords.map (·.mergeSort KeywordRecord.before)
  let p := j.post
  [("id", .int p.id), ("url", .text p.url), ("title", .text p.title), ("author", .text p.author),
    ("permalink", .text p.permalink), ("score", .int p.score), ("nsfw", .bool p.nsfw),
    ("grayscale", .bool p.grayscale), ("sprocket", .bool p.sprocket), ("time", .int p.time),
    ("width", .int p.width), ("height", .int p.height), ("low_url", .text p.lowUrl),
    ("low_width", .int p.lowWidth), ("low_height", .int p.lowHeight),
    ("medium_url", .text p.mediumUrl), ("medium_width", .int p.mediumWidth),
    ("medium_height", .int p.mediumHeight), ("high_url", .text p.highUrl),
    ("high_width", .int p.highWidth), ("high_height", .int p.highHeight),
    ("hexes", gatheredTexts (·.hex) colors), ("csses", gatheredTexts (·.css) colors),
    ("htmls", gatheredTexts (·.html) colors), ("percents", gatheredDoubles (·.percent) colors),
    ("words", gatheredTexts (·.word) keywords), ("weights", gatheredDoubles (·.weight) keywords),
    ("total_count", .int total)]

/-- The result row has the selected columns under their names. -/
theorem row_select (q : ListingQuery) (total : Nat) (j : JoinedRow) :
    q.select.row total j = j.cells total := rfl

/-! ## Clauses -/

namespace ListingQuery

section Clauses
variable (D : Dialect) (t : Tables) (q : ListingQuery)

/-- `FROM` and `WHERE`. -/
def source : Except Failure (List JoinedRow) := q.select.source D t

/-- `FROM`, `WHERE` and `ORDER BY`. -/
def found : Except Failure (List JoinedRow) := q.select.found D t

/-- `LIMIT`. -/
def limited {α : Type} (rows : List α) : List α := q.select.limited rows

/-- The result rows of a listing. -/
def answer : Except Failure (List Row) := q.select.answer D t

end Clauses
end ListingQuery

/-! ## Reading -/

/-- A failure as the database reports it. -/
def Sql.Failure.fault : Failure → DatabaseFault
  | .divisionByZero => .reported ⟨"22012", "division by zero", none⟩
  | .badPattern => .reported ⟨"22025", "LIKE pattern must not end with escape character", none⟩

namespace Sql.Tables

/-- A link to tables as they are now. It answers listings; nothing else is asked of it. -/
def snapshot (D : Dialect) (t : Tables) : Link Id where
  send
    | .run (.listing q) =>
      match q.answer D t with
      | .ok rows => .ok rows
      | .error e => .error e.fault
    | _ => .ok []
  clock := 0

/-- The page of a filter. -/
def page (D : Dialect) (t : Tables) (f : PostFilter) : Except StoreError PostPage :=
  ((t.snapshot D).reader.findPosts f).run

/-- The post of a row with its children, as readers see it. -/
def post (t : Tables) (r : PostRecord) : Post where
  id := r.id
  title := r.title
  author := Author.shown r.author
  permalink := r.permalink
  score := r.score
  nsfw := r.nsfw
  grayscale := r.grayscale
  sprocket := r.sprocket
  time := r.time
  images := {
    low := ⟨r.lowUrl, r.lowWidth, r.lowHeight⟩
    medium := ⟨r.mediumUrl, r.mediumWidth, r.mediumHeight⟩
    high := ⟨r.highUrl, r.highWidth, r.highHeight⟩
    raw := ⟨r.url, r.width, r.height⟩ }
  colors := ((t.colorsOf r.id).mergeSort ColorRecord.before).map fun c =>
    ⟨c.hex, c.css, c.html, c.percent⟩
  keywords := ((t.keywordsOf r.id).mergeSort KeywordRecord.before).map fun k => ⟨k.word, k.weight⟩

/-- A row with all its children joined to it. -/
def joinedRow (t : Tables) (r : PostRecord) : JoinedRow :=
  ⟨r, orNull (t.colorsOf r.id), orNull (t.keywordsOf r.id)⟩

end Sql.Tables

end FilmCatalog
