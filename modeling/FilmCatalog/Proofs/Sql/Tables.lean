import FilmCatalog.Database.Row
import FilmCatalog.Proofs.Sql.Dialect

/-!
# Tables

What a database keeps of a catalog: a row for every post, and rows for its
colors and keywords that name the post they belong to. Child rows have ids of
their own, which tell the order in which they were inserted.

A listing shows the children of a post as arrays: colors by share and keywords
by weight, the greatest first, and equal ones in the order of their ids.

Key definitions: `PostRecord`, `ColorRecord`, `KeywordRecord`, `ChildTable`, `Tables`, `groups`.
Key theorems: `mem_groups_iff`, `groups_lookup`.
-/

namespace FilmCatalog.Sql

/-- A row of the posts. -/
structure PostRecord where
  id : Int
  url : String
  title : String
  /-- In stored form. -/
  author : String
  permalink : String
  score : Int
  nsfw : Bool
  grayscale : Bool
  sprocket : Bool
  time : Int
  width : Int
  height : Int
  lowUrl : String
  lowWidth : Int
  lowHeight : Int
  mediumUrl : String
  mediumWidth : Int
  mediumHeight : Int
  highUrl : String
  highWidth : Int
  highHeight : Int
  deriving DecidableEq, Repr

/-- A row of the colors. -/
structure ColorRecord where
  id : Int
  post : Int
  hex : String
  css : String
  html : String
  percent : Double
  deriving DecidableEq, Repr

/-- A row of the keywords. -/
structure KeywordRecord where
  id : Int
  post : Int
  word : String
  weight : Double
  deriving DecidableEq, Repr

/-- The tables whose rows belong to posts. -/
inductive ChildTable where
  | colors
  | keywords
  deriving DecidableEq, Repr

namespace ChildTable

/-- The name of a child table. -/
def name : ChildTable → String
  | .colors => "colors"
  | .keywords => "keywords"

/-- What a statement calls rows that belong to a child table. -/
def shortName : ChildTable → String
  | .colors => "c"
  | .keywords => "k"

/-- The rows of a child table. -/
@[reducible] def Record : ChildTable → Type
  | .colors => ColorRecord
  | .keywords => KeywordRecord

/-- The id of a row. -/
def id : (c : ChildTable) → c.Record → Int
  | .colors => ColorRecord.id
  | .keywords => KeywordRecord.id

/-- The post that a row belongs to. -/
def post : (c : ChildTable) → c.Record → Int
  | .colors => ColorRecord.post
  | .keywords => KeywordRecord.post

end ChildTable

/-- The tables that listings read, each in the order in which its rows are stored. -/
structure Tables where
  posts : List PostRecord
  colors : List ColorRecord
  keywords : List KeywordRecord
  deriving DecidableEq, Repr

namespace Tables

/-- The color rows of a post. -/
def colorsOf (t : Tables) (post : Int) : List ColorRecord := t.colors.filter (·.post = post)

/-- The keyword rows of a post. -/
def keywordsOf (t : Tables) (post : Int) : List KeywordRecord := t.keywords.filter (·.post = post)

/-- The rows of a child table. -/
def rows (t : Tables) : (c : ChildTable) → List c.Record
  | .colors => t.colors
  | .keywords => t.keywords

/-- The rows of a post in a child table. -/
def children (t : Tables) (c : ChildTable) (post : Int) : List c.Record :=
  (t.rows c).filter fun r => c.post r = post

theorem children_colors (t : Tables) (post : Int) : t.children .colors post = t.colorsOf post := rfl

theorem children_keywords (t : Tables) (post : Int) :
    t.children .keywords post = t.keywordsOf post := rfl

end Tables

/-- Whether a color comes before another in the arrays of a post. -/
def ColorRecord.before (a b : ColorRecord) : Bool :=
  b.percent.below a.percent || (!a.percent.below b.percent && decide (a.id ≤ b.id))

/-- Whether a keyword comes before another in the arrays of a post. -/
def KeywordRecord.before (a b : KeywordRecord) : Bool :=
  b.weight.below a.weight || (!a.weight.below b.weight && decide (a.id ≤ b.id))

/-! ## Groups -/

section Groups
variable {α κ : Type} [DecidableEq κ] (key : α → κ)

/-- `GROUP BY key`: every key that some row has, once, with the rows that have it. -/
def groups (rows : List α) : List (κ × List α) :=
  (rows.map key).dedup.map fun k => (k, rows.filter fun r => key r = k)

theorem mem_groups_iff {rows : List α} {g : κ × List α} :
    g ∈ groups key rows ↔ (∃ r ∈ rows, key r = g.1) ∧ g.2 = rows.filter fun r => key r = g.1 := by
  obtain ⟨k, members⟩ := g
  simp only [groups, List.mem_map, List.mem_dedup, Prod.mk.injEq]
  constructor
  · rintro ⟨_, ⟨r, hr, rfl⟩, rfl, rfl⟩
    exact ⟨⟨r, hr, rfl⟩, rfl⟩
  · rintro ⟨⟨r, hr, hk⟩, hm⟩
    exact ⟨k, ⟨r, hr, hk⟩, rfl, hm.symm⟩

/-- A key leads to one group, or to none if no row has it. -/
theorem groups_lookup (rows : List α) (k : κ) :
    (groups key rows).filter (fun g => g.1 = k) =
      if ∃ r ∈ rows, key r = k then [(k, rows.filter fun r => key r = k)] else [] := by
  have hk : (rows.map key).dedup.filter (fun x => x = k) =
      if k ∈ (rows.map key).dedup then [k] else [] := by
    rw [List.filter_eq]
    split
    · rename_i hm
      rw [List.count_eq_one_of_mem (List.nodup_dedup _) hm, List.replicate_one]
    · rename_i hm
      rw [List.count_eq_zero_of_not_mem hm, List.replicate_zero]
  rw [groups, List.filter_map, Function.comp_def]
  simp only [hk, List.mem_dedup, List.mem_map]
  split <;> simp

end Groups

end FilmCatalog.Sql
