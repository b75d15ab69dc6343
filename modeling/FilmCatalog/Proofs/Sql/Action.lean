import FilmCatalog.Database.Command
import FilmCatalog.Proofs.Sql.Expression
import FilmCatalog.Proofs.Sql.Placeholder

/-!
# Statements that write

The statements by which posts are found by a key, inserted, updated and
deleted, as data: tables, columns by their names, and the values for them. What
an action does is said in terms of these names alone, so its text has to be
that of the command that stands for it (`fragment_action`), and each argument
has to be read at its own placeholder (`legible_action`).

A child table is filled from arrays, one for each column. An upsert says for
every column what becomes of the row that is there already.

Key definitions: `Assignments`, `Action`, `Action.fragment`, `Command.action?`.
Key theorems: `fragment_action`, `legible_action`.
-/

namespace FilmCatalog
namespace Sql

/-- Columns and a value for each. -/
abbrev Assignments := List (String × SqlValue)

/-- What a post is found by. -/
inductive PostKey where
  | id (n : Int)
  | permalink (s : String)
  deriving DecidableEq, Repr

namespace PostKey

/-- The column of a key. -/
def column : PostKey → String
  | .id _ => "id"
  | .permalink _ => "permalink"

/-- The value that is looked for. -/
def value : PostKey → SqlValue
  | .id n => .int8 n
  | .permalink s => .text s

end PostKey

/-- A time for a column of an upsert: from the row that was to be inserted, from
the row that is there, or the first of two that is not null. -/
inductive TimeTerm where
  | excluded (column : String)
  | stored (column : String)
  | coalesce (a b : TimeTerm)
  deriving DecidableEq, Repr

/-- A time of an upsert in SQL. -/
def TimeTerm.sql : TimeTerm → String
  | .excluded column => "EXCLUDED." ++ column
  | .stored column => "post_updates." ++ column
  | .coalesce a b => "COALESCE(" ++ a.sql ++ ", " ++ b.sql ++ ")"

/-- What is asked of the tables. -/
inductive Action where
  | findPost (key : PostKey) (lock : Bool)
  /-- Inserts nothing if the permalink is stored already. -/
  | insertPost (row : Assignments)
  /-- Inserts a row for each place of the arrays. -/
  | insertChildren (table : ChildTable) (post : Int) (arrays : Assignments)
  | updatePost (changes : Assignments) (post : Int)
  | deleteChildren (table : ChildTable) (post : Int)
  /-- Inserts times of last changes, or changes the row that the post has already. -/
  | upsertTimes (row : Assignments) (merges : List (String × TimeTerm))
  | deletePost (post : Int)
  deriving DecidableEq, Repr

namespace Action

open Fragment Command

/-- One column with its value. -/
def assignment (a : String × SqlValue) : Fragment := text (a.1 ++ " = ") ++ Fragment.value a.2

/-- An array with its type. -/
def typedArray (a : String × SqlValue) : Fragment :=
  Fragment.value a.2 ++ text ("::" ++ a.2.typeName)

/-- One column and what an upsert makes of it. -/
def merge (m : String × TimeTerm) : String := m.1 ++ " = " ++ m.2.sql

/-- An action in SQL. -/
def fragment : Action → Fragment
  | .findPost key lock =>
    text ("SELECT id FROM posts WHERE " ++ key.column ++ " = ") ++ Fragment.value key.value ++
      (if lock then text " FOR UPDATE" else empty)
  | .insertPost row =>
    text ("INSERT INTO posts ( " ++ nameList (row.map (·.1)) ++ " ) VALUES ( ") ++
      valueList (row.map (·.2)) ++ text " ) ON CONFLICT (permalink) DO NOTHING RETURNING id"
  | .insertChildren table post arrays =>
    let names := arrays.map (·.1)
    text ("INSERT INTO " ++ table.name ++ " (post_id, " ++ nameList names ++ ") SELECT ") ++
      Fragment.value (.int8 post) ++
      text (", " ++ nameList (names.map fun c => table.shortName ++ "." ++ c) ++ " FROM UNNEST(") ++
      joined ", " (arrays.map typedArray) ++
      text (") AS " ++ table.shortName ++ "(" ++ nameList names ++ ")")
  | .updatePost changes post =>
    text "UPDATE posts SET " ++ joined ", " (changes.map assignment) ++ text " WHERE id = " ++
      Fragment.value (.int8 post)
  | .deleteChildren table post =>
    text ("DELETE FROM " ++ table.name ++ " WHERE post_id = ") ++ Fragment.value (.int8 post)
  | .upsertTimes row merges =>
    text ("INSERT INTO post_updates ( " ++ nameList (row.map (·.1)) ++ " ) VALUES (") ++
      valueList (row.map (·.2)) ++
      text (") ON CONFLICT (post_id) DO UPDATE SET " ++ nameList (merges.map merge))
  | .deletePost post =>
    text "DELETE FROM posts WHERE id = " ++ Fragment.value (.int8 post) ++ text " RETURNING id"

end Action

/-- The arrays of keywords. -/
def keywordArrays (keywords : List Keyword) : Assignments :=
  [("word", .texts (keywords.map (·.word))), ("weight", .floats (keywords.map (·.weight)))]

/-- The arrays of colors. -/
def colorArrays (colors : List Color) : Assignments :=
  [("hex", .texts (colors.map (·.hex))), ("css", .texts (colors.map (·.css))),
    ("html", .texts (colors.map (·.html))), ("percent", .floats (colors.map (·.percent)))]

/-- The row of new times of last changes; there is none for what was not touched. -/
def timesRow (post now : Int) (touched : List UpdateCategory) : Assignments :=
  ("post_id", .int8 post) :: UpdateCategory.all.map fun c =>
    (c.column, .timestamp (if touched.contains c then some now else none))

/-- Every time stays as it is unless there is a new one. -/
def keepOldTimes : List (String × TimeTerm) :=
  UpdateCategory.all.map fun c => (c.column, .coalesce (.excluded c.column) (.stored c.column))

end Sql

open Sql

/-- The action of a command, if it is one. -/
def Command.action? : Command → Option Action
  | .idOfPermalink permalink => some (.findPost (.permalink permalink) false)
  | .lockPost post => some (.findPost (.id post) true)
  | .insertPost p => some (.insertPost p.columns)
  | .insertKeywords post keywords => some (.insertChildren .keywords post (keywordArrays keywords))
  | .insertColors post colors => some (.insertChildren .colors post (colorArrays colors))
  | .updatePost post changes =>
    some (.updatePost (changes.map fun c => (c.column, c.value)) post)
  | .deleteKeywords post => some (.deleteChildren .keywords post)
  | .deleteColors post => some (.deleteChildren .colors post)
  | .stampUpdates post now touched => some (.upsertTimes (timesRow post now touched) keepOldTimes)
  | .deletePost post => some (.deletePost post)
  | .ping => none
  | .listing _ => none
  | .postIds => none
  | .authors => none
  | .keywordSummary _ => none

namespace Sql

open Fragment Command

/-! ## Text -/

theorem fragment_insertKeywords (post : Int) (keywords : List Keyword) :
    (Action.insertChildren .keywords post (keywordArrays keywords)).fragment =
      insertKeywordsFragment post keywords := by
  have hnames : nameList ["word", "weight"] = "word, weight" := by decide
  have harrays : nameList ["k.word", "k.weight"] = "k.word, k.weight" := by decide
  refine eq_of_pieces ?_
  simp [Action.fragment, insertKeywordsFragment, keywordArrays, Action.typedArray, hnames, harrays,
    joined, push, pieces_append, text, Fragment.value, addPiece, ChildTable.name,
    ChildTable.shortName, SqlValue.typeName]

theorem fragment_insertColors (post : Int) (colors : List Color) :
    (Action.insertChildren .colors post (colorArrays colors)).fragment =
      insertColorsFragment post colors := by
  have hnames : nameList ["hex", "css", "html", "percent"] = "hex, css, html, percent" := by decide
  have harrays : nameList ["c.hex", "c.css", "c.html", "c.percent"] =
      "c.hex, c.css, c.html, c.percent" := by decide
  refine eq_of_pieces ?_
  simp [Action.fragment, insertColorsFragment, colorArrays, Action.typedArray, hnames, harrays,
    joined, push, pieces_append, text, Fragment.value, addPiece, ChildTable.name,
    ChildTable.shortName, SqlValue.typeName]

theorem fragment_updatePost (post : Int) (changes : List RowChange) :
    (Action.updatePost (changes.map fun c => (c.column, c.value)) post).fragment =
      (Command.updatePost post changes).fragment := by
  rw [Action.fragment, List.map_map]
  rfl

theorem fragment_upsertTimes (post now : Int) (touched : List UpdateCategory) :
    (Action.upsertTimes (timesRow post now touched) keepOldTimes).fragment =
      stampFragment post now touched := by
  have hmerges : keepOldTimes.map Action.merge = UpdateCategory.all.map keepOld := by
    rw [keepOldTimes, List.map_map]
    refine List.map_congr_left fun c _ => ?_
    cases c <;> rfl
  rw [Action.fragment, hmerges]
  rfl

/-- A command is written as its action. -/
theorem fragment_action {c : Command} {a : Action} (h : c.action? = some a) :
    a.fragment = c.fragment := by
  cases c with
  | insertKeywords post keywords => cases h; exact fragment_insertKeywords post keywords
  | insertColors post colors => cases h; exact fragment_insertColors post colors
  | updatePost post changes => cases h; exact fragment_updatePost post changes
  | stampUpdates post now touched => cases h; exact fragment_upsertTimes post now touched
  | ping => cases h
  | listing q => cases h
  | postIds => cases h
  | authors => cases h
  | keywordSummary limit => cases h
  | _ => cases h; rfl

/-! ## Placeholders -/

/-- A text given by its characters; the text itself need not be taken apart. -/
theorem legible_ofList {cs : List Char} (h : Token.legible false (cs.map .char) = true) :
    (text (String.ofList cs)).Legible := by
  rw [Legible, tokens_text, String.toList_ofList]
  exact h

theorem legible_value (v : SqlValue) : (Fragment.value v).Legible := rfl

theorem legible_nameList {names : List String} (h : ∀ s ∈ names, (text s).Legible) :
    (text (nameList names)).Legible := by
  induction names with
  | nil => exact legible_ofList rfl
  | cons s rest ih =>
    have hs := h s List.mem_cons_self
    have hrest := ih fun t ht => h t (List.mem_cons_of_mem _ ht)
    cases rest with
    | nil => rwa [nameList, String.intercalate_singleton]
    | cons t rest =>
      rw [nameList, String.intercalate_cons_cons]
      exact .text_append (.text_append hs (legible_ofList rfl)) hrest

theorem legible_valueList (values : List SqlValue) : (valueList values).Legible := by
  refine .joined (legible_ofList rfl) fun f hf => ?_
  obtain ⟨v, -, rfl⟩ := List.mem_map.1 hf
  exact legible_value v

theorem legible_changeFragment (c : RowChange) : (changeFragment c).Legible := by
  have hcolumn : (text c.column).Legible := by cases c <;> exact legible_ofList rfl
  exact .append (.text_append hcolumn (legible_ofList rfl)) (legible_value c.value)

theorem legible_column (c : UpdateCategory) : (text c.column).Legible := by
  cases c <;> exact legible_ofList rfl

theorem legible_keepOld (c : UpdateCategory) : (text (keepOld c)).Legible :=
  .text_append (.text_append (.text_append (.text_append (.text_append (legible_column c)
    (legible_ofList rfl)) (legible_column c)) (legible_ofList rfl)) (legible_column c))
    (legible_ofList rfl)

theorem legible_insertPost (p : NewPost) : (insertPostFragment p).Legible := by
  have hnames : (text (nameList (p.columns.map (·.1)))).Legible := by
    refine legible_nameList ?_
    simp only [NewPost.columns, List.map_cons, List.map_nil, List.forall_mem_cons,
      List.not_mem_nil, IsEmpty.forall_iff, implies_true, and_true]
    and_intros <;> exact legible_ofList rfl
  exact .append (.append (.text_append (.text_append (legible_ofList rfl) hnames)
    (legible_ofList rfl)) (legible_valueList _)) (legible_ofList rfl)

theorem legible_next {f : Fragment} (hf : f.Legible) {s : String} (hs : (text s).Legible)
    (v : SqlValue) : (f ++ text s ++ Fragment.value v).Legible :=
  .append (.append hf hs) (legible_value v)

theorem legible_insertKeywords (post : Int) (keywords : List Keyword) :
    (insertKeywordsFragment post keywords).Legible := by
  have hpost : (text "INSERT INTO keywords (post_id, word, weight) SELECT " ++
      Fragment.value (.int8 post)).Legible := .append (legible_ofList rfl) (legible_value _)
  exact .append (legible_next (legible_next hpost (legible_ofList rfl) _) (legible_ofList rfl) _)
    (legible_ofList rfl)

theorem legible_insertColors (post : Int) (colors : List Color) :
    (insertColorsFragment post colors).Legible := by
  have hpost : (text "INSERT INTO colors (post_id, hex, css, html, percent) SELECT " ++
      Fragment.value (.int8 post)).Legible := .append (legible_ofList rfl) (legible_value _)
  exact .append (legible_next (legible_next (legible_next (legible_next hpost
    (legible_ofList rfl) _) (legible_ofList rfl) _) (legible_ofList rfl) _)
    (legible_ofList rfl) _) (legible_ofList rfl)

theorem legible_stamp (post now : Int) (touched : List UpdateCategory) :
    (stampFragment post now touched).Legible := by
  have hcolumns : (text (nameList ("post_id" :: UpdateCategory.all.map
      UpdateCategory.column))).Legible := by
    refine legible_nameList (List.forall_mem_cons.2 ⟨legible_ofList rfl, fun s hs => ?_⟩)
    obtain ⟨c, -, rfl⟩ := List.mem_map.1 hs
    exact legible_column c
  have hmerges : (text (nameList (UpdateCategory.all.map keepOld))).Legible := by
    refine legible_nameList fun s hs => ?_
    obtain ⟨c, -, rfl⟩ := List.mem_map.1 hs
    exact legible_keepOld c
  exact .append (.append (.text_append (.text_append (legible_ofList rfl) hcolumns)
    (legible_ofList rfl)) (legible_valueList _)) (.text_append (legible_ofList rfl) hmerges)

/-- No value gets into the text of an action. -/
theorem legible_action {c : Command} {a : Action} (h : c.action? = some a) :
    c.fragment.Legible := by
  cases c with
  | idOfPermalink permalink => exact .append (legible_ofList rfl) (legible_value _)
  | lockPost post =>
    exact .append (.append (legible_ofList rfl) (legible_value _)) (legible_ofList rfl)
  | insertPost p => exact legible_insertPost p
  | insertKeywords post keywords => exact legible_insertKeywords post keywords
  | insertColors post colors => exact legible_insertColors post colors
  | updatePost post changes =>
    have hchanges : (joined ", " (changes.map changeFragment)).Legible := by
      refine .joined (legible_ofList rfl) fun f hf => ?_
      obtain ⟨change, -, rfl⟩ := List.mem_map.1 hf
      exact legible_changeFragment change
    exact .append (.append (.append (legible_ofList rfl) hchanges) (legible_ofList rfl))
      (legible_value _)
  | deleteKeywords post => exact .append (legible_ofList rfl) (legible_value _)
  | deleteColors post => exact .append (legible_ofList rfl) (legible_value _)
  | stampUpdates post now touched => exact legible_stamp post now touched
  | deletePost post =>
    exact .append (.append (legible_ofList rfl) (legible_value _)) (legible_ofList rfl)
  | ping => cases h
  | listing q => cases h
  | postIds => cases h
  | authors => cases h
  | keywordSummary limit => cases h

/-- The statement of an action has the placeholders `$1`, `$2`, … in this order,
and reads as the action with each argument at its place. -/
theorem carries_action {c : Command} {a : Action} (h : c.action? = some a) :
    c.statement.Carries a.fragment.tokens := by
  have hstatement : c.statement = c.fragment.toStatement := by
    cases c with
    | listing q => cases h
    | _ => rfl
  rw [hstatement, fragment_action h]
  exact (legible_action h).carries

end Sql
end FilmCatalog
