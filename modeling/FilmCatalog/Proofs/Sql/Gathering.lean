import FilmCatalog.Proofs.Sql.Expression

/-!
# Children gathered by post

The part of a listing that is about child tables, with its text and with what
it means over tables: the posts that have a child (`IdSelect`), sets of posts
that are cut with each other (`IdSet`), the rows of a child table gathered by
post and restricted to such a set or not (`Gather`), and their join to the post
rows (`Join`).

Each of these is one syntax read in two ways, so that a statement cannot be
written in one way and be understood in another. The columns of a child table
are indexed by it, and no column is asked of a table that does not have it.

Key definitions: `TextColumn`, `DoubleColumn`, `IdSelect.ids`, `IdSet.ids`, `Gather.groups`,
`Join.partners`.
Key theorems: `IdSelect.mem_ids_iff`, `IdSet.mem_ids_ofList_iff`, `Join.partners_ofSets`.
-/

namespace FilmCatalog

/-- Some rows gathered, or null if there are none. -/
def orNull {α : Type} (rows : List α) : Option (List α) := if rows.isEmpty then none else some rows

theorem orNull_of_mem {α : Type} {rows : List α} {r : α} (h : r ∈ rows) :
    orNull rows = some rows := by
  cases rows with
  | nil => simp at h
  | cons _ _ => rfl

/-- An array of texts, or null if nothing was joined. -/
def gatheredTexts {α : Type} (f : α → String) : Option (List α) → Cell
  | some rows => .texts (rows.map fun r => some (f r))
  | none => .null

/-- An array of doubles, or null if nothing was joined. -/
def gatheredDoubles {α : Type} (f : α → Double) : Option (List α) → Cell
  | some rows => .doubles (rows.map fun r => some (f r))
  | none => .null

namespace Sql

/-! ## Columns -/

/-- The columns of a child table that hold texts. -/
inductive TextColumn : ChildTable → Type where
  | hex : TextColumn .colors
  | css : TextColumn .colors
  | html : TextColumn .colors
  | word : TextColumn .keywords
  deriving DecidableEq, Repr

/-- The columns of a child table that hold doubles. -/
inductive DoubleColumn : ChildTable → Type where
  | percent : DoubleColumn .colors
  | weight : DoubleColumn .keywords
  deriving DecidableEq, Repr

section Columns
variable {c : ChildTable}

/-- The name of a column. -/
def TextColumn.name : TextColumn c → String
  | .hex => "hex"
  | .css => "css"
  | .html => "html"
  | .word => "word"

/-- What a row has in a column. -/
def TextColumn.value : {c : ChildTable} → TextColumn c → c.Record → String
  | _, .hex => ColorRecord.hex
  | _, .css => ColorRecord.css
  | _, .html => ColorRecord.html
  | _, .word => KeywordRecord.word

/-- The name of a column. -/
def DoubleColumn.name : DoubleColumn c → String
  | .percent => "percent"
  | .weight => "weight"

/-- What a row has in a column. -/
def DoubleColumn.value : {c : ChildTable} → DoubleColumn c → c.Record → Double
  | _, .percent => ColorRecord.percent
  | _, .weight => KeywordRecord.weight

/-- `ORDER BY column DESC, id ASC`: whether a row comes before another. -/
def DoubleColumn.before (k : DoubleColumn c) (a b : c.Record) : Bool :=
  (k.value b).below (k.value a) || (!(k.value a).below (k.value b) && decide (c.id a ≤ c.id b))

end Columns

/-! ## Posts with a child -/

/-- The posts that have a row with a text in a column, and of these only those
whose rows have more than a bound in another column together. -/
structure IdSelect (c : ChildTable) where
  column : TextColumn c
  wanted : String
  having : Option (DoubleColumn c × Double)

/-- Posts that are in all of one or more sets. -/
inductive IdSet (c : ChildTable) where
  | one (s : IdSelect c)
  | intersect (a : IdSet c) (s : IdSelect c)

section Sets
variable {c : ChildTable}

namespace IdSelect

open Fragment in
/-- The selection in SQL. -/
def fragment (s : IdSelect c) : Fragment :=
  text ("(SELECT post_id FROM " ++ c.name ++ " WHERE " ++ s.column.name ++ " = ") ++
    Fragment.value (.text s.wanted) ++
    (match s.having with
      | some (summed, bound) =>
        text (" GROUP BY post_id, " ++ s.column.name ++ " HAVING SUM(" ++ summed.name ++ ") > ") ++
          Fragment.value (.float8 bound)
      | none => empty) ++
    text ")"

/-- The selected posts. `HAVING` keeps the groups for which it is true. -/
def ids (D : Dialect) (t : Tables) (s : IdSelect c) : List Int :=
  let rows := (t.rows c).filter fun r => s.column.value r = s.wanted
  match s.having with
  | none => rows.map c.post
  | some (summed, bound) =>
    let kept := (groups (fun r => (c.post r, s.column.value r)) rows).filter fun g =>
      bound.below (D.sum (g.2.map summed.value))
    kept.map fun g => g.1.1

/-- A post is selected if a row of it has the text, and if its rows with that
text have more than the bound together. -/
theorem mem_ids_iff (D : Dialect) (t : Tables) (s : IdSelect c) (id : Int) :
    id ∈ s.ids D t ↔ (∃ r ∈ t.children c id, s.column.value r = s.wanted) ∧
      ∀ h ∈ s.having, h.2.below (D.sum (((t.children c id).filter fun r =>
        s.column.value r = s.wanted).map h.1.value)) = true := by
  obtain ⟨column, wanted, _ | ⟨summed, bound⟩⟩ := s
  · simp only [ids, Tables.children, List.mem_map, List.mem_filter, decide_eq_true_eq,
      Option.not_mem_none, false_implies, implies_true, and_true]
    constructor
    · rintro ⟨r, ⟨hr, hw⟩, rfl⟩
      exact ⟨r, ⟨hr, rfl⟩, hw⟩
    · rintro ⟨r, ⟨hr, rfl⟩, hw⟩
      exact ⟨r, ⟨hr, hw⟩, rfl⟩
  · have hrows : ∀ id : Int, (((t.rows c).filter fun r => column.value r = wanted).filter fun r =>
        (c.post r, column.value r) = (id, wanted)) =
          (t.children c id).filter fun r => column.value r = wanted := by
      intro id
      rw [Tables.children, List.filter_filter, List.filter_filter]
      refine List.filter_congr fun r _ => ?_
      by_cases h : column.value r = wanted <;> simp [h]
    simp only [ids, List.mem_map, List.mem_filter, mem_groups_iff, Option.mem_some_iff,
      forall_eq']
    constructor
    · rintro ⟨⟨⟨post, name⟩, members⟩, ⟨⟨⟨r, ⟨hr, hname⟩, hkey⟩, hm⟩, hsum⟩, rfl⟩
      simp only [decide_eq_true_eq] at hname
      simp only [Prod.mk.injEq] at hkey
      obtain ⟨rfl, rfl⟩ := hkey
      simp only at hm hsum ⊢
      refine ⟨⟨r, by simpa [Tables.children] using hr, hname⟩, ?_⟩
      rw [hm, hname, hrows] at hsum
      exact hsum
    · rintro ⟨⟨r, hr, hname⟩, hsum⟩
      simp only [Tables.children, List.mem_filter, decide_eq_true_eq] at hr
      refine ⟨((id, wanted), (t.children c id).filter fun r => column.value r = wanted),
        ⟨⟨⟨r, ⟨hr.1, by simpa using hname⟩, by simp [hr.2, hname]⟩, (hrows id).symm⟩, hsum⟩, rfl⟩

end IdSelect

namespace IdSet

open Fragment in
/-- A set in SQL. `INTERSECT` goes from left to right. -/
def fragment : IdSet c → Fragment
  | one s => s.fragment
  | intersect a s => a.fragment ++ text " INTERSECT " ++ s.fragment

/-- The posts of a set. `INTERSECT` gives each once. -/
def ids (D : Dialect) (t : Tables) : IdSet c → List Int
  | one s => s.ids D t
  | intersect a s => ((a.ids D t).filter (· ∈ s.ids D t)).dedup

/-- The posts that are selected by all, if there is something to select by. -/
def ofList : List (IdSelect c) → Option (IdSet c)
  | [] => none
  | s :: rest => some (rest.foldl intersect (one s))

theorem mem_ids_ofList_iff (D : Dialect) (t : Tables) {sets : List (IdSelect c)} {a : IdSet c}
    (h : ofList sets = some a) (id : Int) : id ∈ a.ids D t ↔ ∀ s ∈ sets, id ∈ s.ids D t := by
  have hfold : ∀ (rest : List (IdSelect c)) (first : IdSet c),
      id ∈ (rest.foldl intersect first).ids D t ↔
        id ∈ first.ids D t ∧ ∀ s ∈ rest, id ∈ s.ids D t := by
    intro rest
    induction rest with
    | nil => simp
    | cons s rest ih =>
      intro first
      rw [List.foldl_cons, ih]
      simp [ids, and_assoc]
  cases sets with
  | nil => simp [ofList] at h
  | cons s rest =>
    obtain rfl := Option.some.inj h
    rw [hfold, List.forall_mem_cons, ids]

end IdSet
end Sets

/-! ## Gathered rows -/

/-- A column gathered into an array under a name of its own. -/
inductive ArrayColumn (c : ChildTable) where
  | texts (column : TextColumn c) (label : String)
  | doubles (column : DoubleColumn c) (label : String)

/-- A child table gathered by post, restricted to some posts or not. Arrays go
by the same column, the greatest first. -/
structure Gather (c : ChildTable) where
  order : DoubleColumn c
  arrays : List (ArrayColumn c)
  among : Option (IdSet c)

/-- A gathered child table joined to the posts. From outside, posts without
rows in it stay. -/
structure Join (c : ChildTable) where
  outer : Bool
  item : Gather c

section Joins
variable {c : ChildTable}

namespace ArrayColumn

/-- The name of an array. -/
def label : ArrayColumn c → String
  | texts _ label => label
  | doubles _ label => label

/-- The name of the column that is gathered. -/
def source : ArrayColumn c → String
  | texts column _ => column.name
  | doubles column _ => column.name

/-- An array in SQL. -/
def sql (order : DoubleColumn c) (a : ArrayColumn c) : String :=
  "ARRAY_AGG(" ++ a.source ++ " ORDER BY " ++ order.name ++ " DESC, id ASC) AS " ++ a.label

/-- An array of rows in their order. -/
def cell (rows : Option (List c.Record)) : ArrayColumn c → Cell
  | texts column _ => gatheredTexts column.value rows
  | doubles column _ => gatheredDoubles column.value rows

end ArrayColumn

namespace Gather

open Fragment in
/-- A gathered child table in SQL. -/
def fragment (g : Gather c) : Fragment :=
  text ("(SELECT post_id, " ++ ", ".intercalate (g.arrays.map (·.sql g.order)) ++ " FROM " ++
    c.name) ++
    (match g.among with
      | some set => text " WHERE post_id IN (" ++ set.fragment ++ text ")"
      | none => empty) ++
    text " GROUP BY post_id)"

/-- The posts of gathered rows, each once and with its rows. -/
def groups (D : Dialect) (t : Tables) (g : Gather c) : List (Int × List c.Record) :=
  Sql.groups c.post <| match g.among with
    | some set => (t.rows c).filter fun r => c.post r ∈ set.ids D t
    | none => t.rows c

/-- The arrays of one group, or nulls if nothing was joined. -/
def cells (g : Gather c) (rows : Option (List c.Record)) : Row :=
  g.arrays.map fun a => (a.label, a.cell (rows.map (·.mergeSort g.order.before)))

end Gather

namespace Join

/-- The kind of a join in SQL. -/
def sql (j : Join c) : String := if j.outer then "LEFT OUTER JOIN" else "INNER JOIN"

open Fragment in
/-- A join in SQL. -/
def fragment (j : Join c) : Fragment :=
  text (j.sql ++ " ") ++ j.item.fragment ++
    text (" " ++ c.shortName ++ " ON " ++ c.shortName ++ ".post_id = p.id")

/-- The names of the arrays that are joined. -/
def columns (j : Join c) : List String :=
  j.item.arrays.map fun a => c.shortName ++ "." ++ a.label

/-- What stands beside the row of a post; none stands for nulls. -/
def partners (D : Dialect) (t : Tables) (j : Join c) (post : Int) : List (Option (List c.Record)) :=
  match j.outer, (j.item.groups D t).filter fun g => g.1 = post with
  | true, [] => [none]
  | _, matched => matched.map fun g => some g.2

theorem partners_inner {D : Dialect} {t : Tables} {j : Join c} (h : j.outer = false) (post : Int) :
    j.partners D t post =
      ((j.item.groups D t).filter fun g => g.1 = post).map fun g => some g.2 := by
  simp [partners, h]

/-- A child table joined to a post, from outside if nothing is wanted: all its
children, once, or nothing if the post is not in all of the wanted sets. A post
in such a set has children. -/
theorem partners_ofSets (D : Dialect) (t : Tables) {j : Join c} {sets : List (IdSelect c)}
    (houter : j.outer = sets.isEmpty) (hamong : j.item.among = IdSet.ofList sets) (id : Int) :
    j.partners D t id =
      if ∀ s ∈ sets, id ∈ s.ids D t then [orNull (t.children c id)] else [] := by
  cases sets with
  | nil =>
    rw [if_pos (by simp), partners, houter, Gather.groups, hamong]
    simp only [IdSet.ofList, List.isEmpty_nil, groups_lookup]
    by_cases h : ∃ r ∈ t.rows c, c.post r = id
    · obtain ⟨r, hr, he⟩ := h
      have hchild : r ∈ t.children c id := by simpa [Tables.children] using ⟨hr, he⟩
      rw [if_pos ⟨r, hr, he⟩, orNull_of_mem hchild]
      rfl
    · have hnil : t.children c id = [] := by
        simpa [Tables.children] using h
      rw [if_neg h, hnil]
      rfl
  | cons s rest =>
    obtain ⟨set, hset⟩ : ∃ set, IdSet.ofList (s :: rest) = some set := ⟨_, rfl⟩
    have hmem := IdSet.mem_ids_ofList_iff D t hset id
    rw [partners_inner houter, Gather.groups, hamong, hset]
    simp only [groups_lookup]
    by_cases h : id ∈ set.ids D t
    · have hall := hmem.1 h
      obtain ⟨⟨r, hr, -⟩, -⟩ := (s.mem_ids_iff D t id).1 (hall s List.mem_cons_self)
      obtain ⟨hrow, hpost⟩ : r ∈ t.rows c ∧ c.post r = id := by
        simpa [Tables.children] using hr
      have hex : ∃ r ∈ (t.rows c).filter (fun r => c.post r ∈ set.ids D t), c.post r = id :=
        ⟨r, by simpa [hrow, hpost] using h, hpost⟩
      have hsame : ((t.rows c).filter fun r => c.post r ∈ set.ids D t).filter
          (fun r => c.post r = id) = t.children c id := by
        rw [List.filter_filter]
        refine List.filter_congr fun r _ => ?_
        by_cases he : c.post r = id <;> simp [he, h]
      rw [if_pos hex, if_pos hall, hsame, orNull_of_mem hr]
      rfl
    · have hno : ¬∃ r ∈ (t.rows c).filter (fun r => c.post r ∈ set.ids D t), c.post r = id := by
        rintro ⟨r, hr, rfl⟩
        exact h (by simpa using (List.mem_filter.1 hr).2)
      rw [if_neg hno, if_neg (mt hmem.2 h), List.map_nil]

end Join
end Joins
end Sql
end FilmCatalog
