import FilmCatalog.Proofs.Result
import FilmCatalog.Proofs.Sql.Action
import FilmCatalog.Proofs.Sql.Tables

/-!
# What actions do to tables

A row is made and changed by the names of its columns: a `Layout` says which
value a column takes. Inserting gives every column of the list its value, and
the columns without a default must be among them. Ids come from counters, which
no rollback turns back; they are ahead of all ids in use (`Database.Sound`).

A child row and the times of last changes belong to a stored post, and a post
that is deleted takes them with it.

Key definitions: `Layout`, `Layout.row`, `unnest`, `Layout.childRows`, `Database`,
`Database.perform`, `Database.Sound`.
Key theorems: `postLayout_row`, `postLayout_assign`, `childRows_keywords`, `childRows_colors`,
`merged_keepOldTimes`.
-/

namespace FilmCatalog

namespace SqlValue

/-- The truth value that is bound, if it is one. -/
def bool? : SqlValue → Option Bool
  | .bool b => some b
  | _ => none

/-- The 32-bit integer that is bound, if it is one. -/
def int4? : SqlValue → Option Int
  | .int4 n => some n
  | _ => none

/-- The 64-bit integer that is bound, if it is one. -/
def int8? : SqlValue → Option Int
  | .int8 n => some n
  | _ => none

/-- The double that is bound, if it is one. -/
def float8? : SqlValue → Option Double
  | .float8 x => some x
  | _ => none

/-- The text that is bound, if it is one. -/
def text? : SqlValue → Option String
  | .text s => some s
  | _ => none

/-- The time that is bound or the null in its place, if it is one. -/
def timestamp? : SqlValue → Option (Option Int)
  | .timestamp t => some t
  | _ => none

/-- The entries of an array, if it is one. -/
def entries? : SqlValue → Option (List SqlValue)
  | .texts xs => some (xs.map .text)
  | .ints xs => some (xs.map .int8)
  | .floats xs => some (xs.map .float8)
  | _ => none

end SqlValue

namespace Sql

/-! ## Rows by columns -/

/-- Why an action is refused. -/
inductive Refusal where
  | syntaxError
  /-- The table has no such column, or it is of another type. -/
  | noSuchColumn
  | missingValue
  /-- The row would belong to a post that is not stored. -/
  | missingPost
  deriving DecidableEq, Repr

/-- A refusal as the database reports it. -/
def Refusal.fault : Refusal → DatabaseFault
  | .syntaxError => .reported ⟨"42601", "syntax error", none⟩
  | .noSuchColumn => .reported ⟨"42703", "column does not exist", none⟩
  | .missingValue => .reported ⟨"23502", "null value violates not-null constraint", none⟩
  | .missingPost => .reported ⟨"23503", "violates foreign key constraint", none⟩

/-- How the rows of a table are made. -/
structure Layout (ρ : Type) where
  /-- A row with an id, every other column having its default. -/
  start : Int → ρ
  /-- The row with another value in a column, if the column takes it. -/
  put? : ρ → String → SqlValue → Option ρ
  /-- The columns that have no default and take no null. -/
  required : List String

namespace Layout

variable {ρ : Type} (l : Layout ρ)

/-- Changes one column after the other. -/
def assign (r : ρ) : Assignments → Except Refusal ρ
  | [] => .ok r
  | (column, v) :: rest =>
    match l.put? r column v with
    | some r => assign r rest
    | none => .error .noSuchColumn

/-- A new row. -/
def row (id : Int) (columns : Assignments) : Except Refusal ρ :=
  if ∀ c ∈ l.required, c ∈ columns.map (·.1) then l.assign (l.start id) columns
  else .error .missingValue

/-- New rows with ids one behind the other. -/
def rows : Int → List Assignments → Except Refusal (List ρ)
  | _, [] => .ok []
  | id, columns :: rest => do
    let r ← l.row id columns
    let rs ← rows (id + 1) rest
    pure (r :: rs)

end Layout

/-- `UNNEST`: for each place of some arrays a row with their entries there. Where
an array has ended its entry is null, which no column of a child table takes. -/
def unnest : Assignments → Except Refusal (List Assignments)
  | [] => .ok []
  | [(column, v)] =>
    match v.entries? with
    | some entries => .ok (entries.map fun e => [(column, e)])
    | none => .error .noSuchColumn
  | (column, v) :: rest => do
    let rows ← unnest rest
    match v.entries? with
    | some entries =>
      if entries.length = rows.length then
        pure (entries.zipWith (fun e row => (column, e) :: row) rows)
      else throw .missingValue
    | none => throw .noSuchColumn

/-- `INSERT … SELECT`: new rows of a post, one for each place of some arrays. -/
def Layout.childRows {ρ : Type} (l : Layout ρ) (first post : Int) (arrays : Assignments) :
    Except Refusal (List ρ) := do
  let rows ← unnest arrays
  l.rows first (rows.map fun row => ("post_id", .int8 post) :: row)

/-! ## Tables -/

/-- The times of the last changes of a post. -/
structure UpdateRecord where
  post : Int
  times : UpdateCategory → Option Int

/-- The columns of a post row. The id is not one that can be given. -/
def PostRecord.put? (r : PostRecord) (column : String) (v : SqlValue) : Option PostRecord :=
  match column with
  | "url" => v.text?.map fun s => { r with url := s }
  | "title" => v.text?.map fun s => { r with title := s }
  | "author" => v.text?.map fun s => { r with author := s }
  | "permalink" => v.text?.map fun s => { r with permalink := s }
  | "score" => v.int4?.map fun n => { r with score := n }
  | "nsfw" => v.bool?.map fun b => { r with nsfw := b }
  | "grayscale" => v.bool?.map fun b => { r with grayscale := b }
  | "sprocket" => v.bool?.map fun b => { r with sprocket := b }
  | "time" => v.int8?.map fun n => { r with time := n }
  | "width" => v.int4?.map fun n => { r with width := n }
  | "height" => v.int4?.map fun n => { r with height := n }
  | "low_url" => v.text?.map fun s => { r with lowUrl := s }
  | "low_width" => v.int4?.map fun n => { r with lowWidth := n }
  | "low_height" => v.int4?.map fun n => { r with lowHeight := n }
  | "medium_url" => v.text?.map fun s => { r with mediumUrl := s }
  | "medium_width" => v.int4?.map fun n => { r with mediumWidth := n }
  | "medium_height" => v.int4?.map fun n => { r with mediumHeight := n }
  | "high_url" => v.text?.map fun s => { r with highUrl := s }
  | "high_width" => v.int4?.map fun n => { r with highWidth := n }
  | "high_height" => v.int4?.map fun n => { r with highHeight := n }
  | _ => none

/-- The layout of the posts: score and flags have defaults. -/
def postLayout : Layout PostRecord where
  start id := {
    id := id, url := "", title := "", author := "", permalink := "", score := 0, nsfw := false
    grayscale := false, sprocket := false, time := 0, width := 0, height := 0, lowUrl := ""
    lowWidth := 0, lowHeight := 0, mediumUrl := "", mediumWidth := 0, mediumHeight := 0
    highUrl := "", highWidth := 0, highHeight := 0 }
  put? := PostRecord.put?
  required := ["url", "title", "author", "permalink", "time", "width", "height", "low_url",
    "low_width", "low_height", "medium_url", "medium_width", "medium_height", "high_url",
    "high_width", "high_height"]

/-- The layout of the keywords. -/
def keywordLayout : Layout KeywordRecord where
  start id := ⟨id, 0, "", .zero false⟩
  put? r column v :=
    match column with
    | "post_id" => v.int8?.map fun n => { r with post := n }
    | "word" => v.text?.map fun s => { r with word := s }
    | "weight" => v.float8?.map fun x => { r with weight := x }
    | _ => none
  required := ["post_id", "word", "weight"]

/-- The layout of the colors. -/
def colorLayout : Layout ColorRecord where
  start id := ⟨id, 0, "", "", "", .zero false⟩
  put? r column v :=
    match column with
    | "post_id" => v.int8?.map fun n => { r with post := n }
    | "hex" => v.text?.map fun s => { r with hex := s }
    | "css" => v.text?.map fun s => { r with css := s }
    | "html" => v.text?.map fun s => { r with html := s }
    | "percent" => v.float8?.map fun x => { r with percent := x }
    | _ => none
  required := ["post_id", "hex", "css", "html", "percent"]

/-- The category whose times a column holds. -/
def category? (column : String) : Option UpdateCategory :=
  UpdateCategory.all.find? fun c => c.column == column

/-- The layout of the times of last changes. Its key is the post. -/
def updateLayout : Layout UpdateRecord where
  start _ := ⟨0, fun _ => none⟩
  put? r column v :=
    if column = "post_id" then v.int8?.map fun n => { r with post := n }
    else do
      let c ← category? column
      let t ← v.timestamp?
      pure { r with times := Function.update r.times c t }
  required := ["post_id"]

/-- The value of a time in an upsert, if it names columns of the table. -/
def TimeTerm.value? (excluded stored : UpdateRecord) : TimeTerm → Option (Option Int)
  | .excluded column => (category? column).map excluded.times
  | .stored column => (category? column).map stored.times
  | .coalesce a b => do
    let x ← a.value? excluded stored
    let y ← b.value? excluded stored
    pure (x.or y)

/-- The new values of an upsert; each is taken of the row as it was. -/
def mergedColumns (excluded stored : UpdateRecord) :
    List (String × TimeTerm) → Except Refusal Assignments
  | [] => .ok []
  | (column, term) :: rest =>
    match term.value? excluded stored with
    | some t => do
      let columns ← mergedColumns excluded stored rest
      pure ((column, .timestamp t) :: columns)
    | none => .error .noSuchColumn

/-- The row that is there after an upsert. -/
def UpdateRecord.merged (excluded stored : UpdateRecord) (merges : List (String × TimeTerm)) :
    Except Refusal UpdateRecord := do
  updateLayout.assign stored (← mergedColumns excluded stored merges)

/-- Whether a post is stored. -/
def Tables.Stored (t : Tables) (post : Int) : Prop := ∃ r ∈ t.posts, r.id = post

instance (t : Tables) (post : Int) : Decidable (t.Stored post) :=
  inferInstanceAs (Decidable (∃ r ∈ t.posts, r.id = post))

/-- Whether a permalink is stored. -/
def Tables.Linked (t : Tables) (permalink : String) : Prop := ∃ r ∈ t.posts, r.permalink = permalink

instance (t : Tables) (permalink : String) : Decidable (t.Linked permalink) :=
  inferInstanceAs (Decidable (∃ r ∈ t.posts, r.permalink = permalink))

/-- All tables, and the ids that their next rows get. -/
structure Database extends Tables where
  updates : List UpdateRecord
  nextPost : Int
  nextColor : Int
  nextKeyword : Int

/-- Whether a row has a key. -/
def PostKey.holds (r : PostRecord) : PostKey → Bool
  | .id n => decide (r.id = n)
  | .permalink s => decide (r.permalink = s)

/-- The id of a post as a result row. -/
def idRow (r : PostRecord) : Row := [("id", .int r.id)]

namespace Database

/-- Inserts child rows of a post, one for each place of some arrays. -/
def addChildren (d : Database) (post : Int) (arrays : Assignments) :
    ChildTable → Except Refusal Database
  | .colors => do
    let colors ← colorLayout.childRows d.nextColor post arrays
    if ∀ c ∈ colors, d.Stored c.post then
      pure { d with colors := d.colors ++ colors, nextColor := d.nextColor + colors.length }
    else throw .missingPost
  | .keywords => do
    let keywords ← keywordLayout.childRows d.nextKeyword post arrays
    if ∀ k ∈ keywords, d.Stored k.post then
      pure { d with
        keywords := d.keywords ++ keywords, nextKeyword := d.nextKeyword + keywords.length }
    else throw .missingPost

/-- Times of last changes, inserted or merged into the row that is there. -/
def upserted (d : Database) (new : UpdateRecord) (merges : List (String × TimeTerm)) :
    Except Refusal (List UpdateRecord) :=
  if ∃ r ∈ d.updates, r.post = new.post then
    d.updates.mapM fun r => if r.post = new.post then new.merged r merges else pure r
  else pure (d.updates ++ [new])

/-- What an action answers, and the database after it. -/
def perform (d : Database) : Action → Except Refusal (List Row × Database)
  | .findPost key _ => .ok ((d.posts.filter key.holds).map idRow, d)
  | .insertPost columns => do
    let r ← postLayout.row d.nextPost columns
    if d.Linked r.permalink then pure ([], { d with nextPost := d.nextPost + 1 })
    else pure ([idRow r], { d with posts := d.posts ++ [r], nextPost := d.nextPost + 1 })
  | .insertChildren table post arrays => do
    let d ← d.addChildren post arrays table
    pure ([], d)
  | .updatePost changes post =>
    if changes.isEmpty then .error .syntaxError
    else do
      let posts ← d.posts.mapM fun r =>
        if r.id = post then postLayout.assign r changes else pure r
      pure ([], { d with posts := posts })
  | .deleteChildren .colors post =>
    .ok ([], { d with colors := d.colors.filter (·.post ≠ post) })
  | .deleteChildren .keywords post =>
    .ok ([], { d with keywords := d.keywords.filter (·.post ≠ post) })
  | .upsertTimes columns merges => do
    let new ← updateLayout.row 0 columns
    if d.Stored new.post then do
      let updates ← d.upserted new merges
      pure ([], { d with updates := updates })
    else throw .missingPost
  | .deletePost post =>
    .ok ((d.posts.filter (·.id = post)).map idRow, { d with
      posts := d.posts.filter (·.id ≠ post)
      colors := d.colors.filter (·.post ≠ post)
      keywords := d.keywords.filter (·.post ≠ post)
      updates := d.updates.filter (·.post ≠ post) })

/-- What the counters and the references between tables keep to. -/
structure Sound (d : Database) : Prop where
  ids : ∀ r ∈ d.posts, r.id < d.nextPost
  colors : ∀ c ∈ d.colors, d.Stored c.post
  keywords : ∀ k ∈ d.keywords, d.Stored k.post

end Database

end Sql

open Sql

/-! ## Rows that commands make -/

/-- The row of a new post. -/
def NewPost.record (p : NewPost) (id : Int) : PostRecord where
  id := id
  url := p.images.raw.url
  title := p.title
  author := p.author
  permalink := p.permalink
  score := p.score
  nsfw := p.nsfw
  grayscale := p.grayscale
  sprocket := p.sprocket
  time := p.time
  width := p.images.raw.width
  height := p.images.raw.height
  lowUrl := p.images.low.url
  lowWidth := p.images.low.width
  lowHeight := p.images.low.height
  mediumUrl := p.images.medium.url
  mediumWidth := p.images.medium.width
  mediumHeight := p.images.medium.height
  highUrl := p.images.high.url
  highWidth := p.images.high.width
  highHeight := p.images.high.height

/-- The row of a post with what a patch carries for it. -/
def Patch.onRecord (p : Patch) (r : PostRecord) : PostRecord :=
  { r with
    score := p.score.getD r.score
    nsfw := p.nsfw.getD r.nsfw
    grayscale := p.grayscale.getD r.grayscale
    sprocket := p.sprocket.getD r.sprocket }

namespace Sql

/-- The keyword of a row. -/
def KeywordRecord.keyword (k : KeywordRecord) : Keyword := ⟨k.word, k.weight⟩

/-- The color of a row. -/
def ColorRecord.color (c : ColorRecord) : Color := ⟨c.hex, c.css, c.html, c.percent⟩

/-- Rows with ids one behind the other, one for each member of a list. -/
def numbered {α ρ : Type} (row : Int → α → ρ) : Int → List α → List ρ
  | _, [] => []
  | id, a :: rest => row id a :: numbered row (id + 1) rest

/-- The rows of some keywords of a post, the first one with a given id. -/
def keywordRows (post : Int) : Int → List Keyword → List KeywordRecord :=
  numbered fun id k => ⟨id, post, k.word, k.weight⟩

/-- The rows of some colors of a post, the first one with a given id. -/
def colorRows (post : Int) : Int → List Color → List ColorRecord :=
  numbered fun id c => ⟨id, post, c.hex, c.css, c.html, c.percent⟩

theorem postLayout_row (p : NewPost) (id : Int) :
    postLayout.row id p.columns = .ok (p.record id) := by
  have hrequired : ∀ c ∈ postLayout.required, c ∈ p.columns.map (·.1) := by
    simp [postLayout, NewPost.columns]
  rw [Layout.row, if_pos hrequired]
  simp [NewPost.columns, Layout.assign, postLayout, PostRecord.put?, SqlValue.text?,
    SqlValue.int4?, SqlValue.int8?, SqlValue.bool?, NewPost.record]

/-- Every combination of fields changes these fields alone. -/
theorem postLayout_assign (p : Patch) (r : PostRecord) :
    postLayout.assign r (p.rowChanges.map fun c => (c.column, c.value)) = .ok (p.onRecord r) := by
  obtain ⟨score, nsfw, grayscale, sprocket, colors, keywords⟩ := p
  cases score <;> cases nsfw <;> cases grayscale <;> cases sprocket <;> rfl

section Numbered

variable {α ρ : Type} {row : Int → α → ρ} {id : Int} {as : List α}

theorem map_numbered {back : ρ → α} (h : ∀ id a, back (row id a) = a) :
    (numbered row id as).map back = as := by
  induction as generalizing id with
  | nil => rfl
  | cons a rest ih => rw [numbered, List.map_cons, h, ih]

/-- What holds for every row that can be made holds for the rows that are there. -/
theorem forall_mem_numbered {P : ρ → Prop} (h : ∀ id a, P (row id a)) :
    ∀ r ∈ numbered row id as, P r := by
  induction as generalizing id with
  | nil => exact fun _ hr => absurd hr List.not_mem_nil
  | cons a rest ih => exact List.forall_mem_cons.2 ⟨h id a, ih⟩

theorem rows_map {l : Layout ρ} {columns : α → Assignments}
    (h : ∀ id a, l.row id (columns a) = .ok (row id a)) :
    l.rows id (as.map columns) = .ok (numbered row id as) := by
  induction as generalizing id with
  | nil => rfl
  | cons a rest ih =>
    rw [List.map_cons, Layout.rows, h, ih]
    rfl

end Numbered

theorem childRows_keywords (first post : Int) (keywords : List Keyword) :
    keywordLayout.childRows first post (keywordArrays keywords) =
      .ok (keywordRows post first keywords) := by
  have hunnest : unnest (keywordArrays keywords) =
      .ok (keywords.map fun k => [("word", .text k.word), ("weight", .float8 k.weight)]) := by
    simp [unnest, keywordArrays, SqlValue.entries?, List.zipWith_map, List.zipWith_self]
  rw [Layout.childRows, hunnest, ok_bind, List.map_map]
  refine rows_map fun id k => ?_
  simp [Layout.row, Layout.assign, keywordLayout, SqlValue.int8?, SqlValue.text?,
    SqlValue.float8?]

theorem childRows_colors (first post : Int) (colors : List Color) :
    colorLayout.childRows first post (colorArrays colors) = .ok (colorRows post first colors) := by
  have hunnest : unnest (colorArrays colors) =
      .ok (colors.map fun c => [("hex", .text c.hex), ("css", .text c.css),
        ("html", .text c.html), ("percent", .float8 c.percent)]) := by
    simp [unnest, colorArrays, SqlValue.entries?, List.zipWith_map, List.zipWith_self]
  rw [Layout.childRows, hunnest, ok_bind, List.map_map]
  refine rows_map fun id c => ?_
  simp [Layout.row, Layout.assign, colorLayout, SqlValue.int8?, SqlValue.text?,
    SqlValue.float8?]

theorem map_keywordRows (post id : Int) (keywords : List Keyword) :
    (keywordRows post id keywords).map KeywordRecord.keyword = keywords := by
  refine map_numbered fun id k => ?_
  rfl

theorem map_colorRows (post id : Int) (colors : List Color) :
    (colorRows post id colors).map ColorRecord.color = colors := by
  refine map_numbered fun id c => ?_
  rfl

theorem post_of_mem_keywordRows {post id : Int} {keywords : List Keyword} :
    ∀ k ∈ keywordRows post id keywords, k.post = post :=
  forall_mem_numbered fun _ _ => rfl

theorem post_of_mem_colorRows {post id : Int} {colors : List Color} :
    ∀ c ∈ colorRows post id colors, c.post = post :=
  forall_mem_numbered fun _ _ => rfl

/-! ## Times of last changes -/

theorem category?_column (c : UpdateCategory) : category? c.column = some c := by
  cases c <;> decide

theorem column_ne_post (c : UpdateCategory) : c.column ≠ "post_id" := by
  cases c <;> decide

theorem UpdateCategory.mem_all (c : UpdateCategory) : c ∈ UpdateCategory.all := by
  cases c <;> decide

/-- Some categories get new times and the others keep theirs. -/
theorem updateLayout_assign (r : UpdateRecord) (cs : List UpdateCategory)
    (t : UpdateCategory → Option Int) :
    updateLayout.assign r (cs.map fun c => (c.column, .timestamp (t c))) =
      .ok ⟨r.post, fun c => if c ∈ cs then t c else r.times c⟩ := by
  induction cs generalizing r with
  | nil => simp [Layout.assign]
  | cons c cs ih =>
    have hput : updateLayout.put? r c.column (.timestamp (t c)) =
        some { r with times := Function.update r.times c (t c) } := by
      simp [updateLayout, column_ne_post, category?_column, SqlValue.timestamp?]
    rw [List.map_cons, Layout.assign, hput]
    simp only [ih, Except.ok.injEq, UpdateRecord.mk.injEq, true_and]
    funext x
    by_cases hx : x = c
    · simp [hx]
    · simp [hx, Function.update_of_ne]

theorem updateLayout_row (post now : Int) (touched : List UpdateCategory) :
    updateLayout.row 0 (timesRow post now touched) =
      .ok ⟨post, fun c => if c ∈ touched then some now else none⟩ := by
  have hpost : updateLayout.put? (updateLayout.start 0) "post_id" (.int8 post) =
      some ⟨post, fun _ => none⟩ := rfl
  rw [Layout.row, if_pos (by simp [updateLayout, timesRow]), timesRow, Layout.assign, hpost]
  simp only [updateLayout_assign, UpdateCategory.mem_all, if_true, List.contains_eq_mem,
    decide_eq_true_eq]

/-- An upsert that keeps old times takes the new ones where there are any. -/
theorem merged_keepOldTimes (new stored : UpdateRecord) :
    new.merged stored keepOldTimes =
      .ok ⟨stored.post, fun c => (new.times c).or (stored.times c)⟩ := by
  have hcolumns : ∀ cs : List UpdateCategory, mergedColumns new stored
      (cs.map fun c => (c.column, .coalesce (.excluded c.column) (.stored c.column))) =
        .ok (cs.map fun c => (c.column, .timestamp ((new.times c).or (stored.times c)))) := by
    intro cs
    induction cs with
    | nil => rfl
    | cons c cs ih => simp [mergedColumns, TimeTerm.value?, category?_column, ih]
  rw [UpdateRecord.merged, keepOldTimes, hcolumns, ok_bind, updateLayout_assign]
  simp only [UpdateCategory.mem_all, if_true]

end Sql
end FilmCatalog
