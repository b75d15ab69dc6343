import FilmCatalog.Proofs.Database.Transaction
import FilmCatalog.Proofs.Listing.Selection

/-!
# What a page holds

The page of a filter holds the matching posts in the order of the filter, cut
at its limit (`page_eq`). Posts are compared by their rank: the values of the
sort keys, so that the smaller rank comes first.

Reading never fails here: the result row of a joined row has every column with
its type, and the arrays of its children are equally long.

Key definitions: `RowOrder.rank`, `PostFilter.rank`, `Sql.Tables.matching`.
Key theorems: `place_eq_rank`, `found_eq`, `ofRow_cells`, `toPost_read`, `answer_eq`,
`pageOf_cells`, `page_eq`.
-/

namespace FilmCatalog

open Sql

/-! ## Order -/

/-- Where a post stands in an order: the smaller rank comes first. -/
def RowOrder.rank (p : Post) : RowOrder → List Int
  | .latest => [-p.time, -p.id]
  | .best => [-p.score, -p.time, -p.id]
  | .shuffled seed => [p.time.tmod seed, -p.time, -p.id]

/-- The sort keys of an order have the rank as their values, unless the seed is zero. -/
theorem RowOrder.values_keys (o : RowOrder) (h : ∀ seed, o = .shuffled seed → seed ≠ 0)
    (t : Tables) (r : PostRecord) :
    o.keys.mapM (fun k => k.value r) = .ok (o.rank (t.post r)) := by
  cases o with
  | latest => rfl
  | best => rfl
  | shuffled seed =>
    have hb : (IntTerm.mod (.column .time) (.bound seed)).value r = .ok (r.time.tmod seed) :=
      Condition.value_mod (h seed rfl) r _ rfl
    simp only [keys, List.mapM_cons, SortKey.value, hb]
    rfl

namespace PostFilter

/-- Where a post stands in the order of a filter. -/
def rank (f : PostFilter) (p : Post) : List Int := f.rowOrder.rank p

theorem place_eq_rank {f : PostFilter} (h : f.Seeded) (t : Tables) (r : PostRecord) :
    (ListingQuery.ofFilter f).select.place r = .ok (f.rank (t.post r)) := by
  refine RowOrder.values_keys f.rowOrder (fun seed hseed => ?_) t r
  unfold rowOrder at hseed
  cases hs : f.sort with
  | time => simp [hs] at hseed
  | score => simp [hs] at hseed
  | random =>
    simp only [hs, RowOrder.shuffled.injEq] at hseed
    exact hseed ▸ (seedOrFirst_pos h hs).ne'

end PostFilter

namespace Sql.Tables

/-- The rows that match a filter, in its order. -/
def matchingRows (D : Dialect) (t : Tables) (f : PostFilter) : List PostRecord :=
  (t.posts.filter fun r => f.Matches D t r).mergeSort fun a b =>
    decide (f.rank (t.post a) ≤ f.rank (t.post b))

/-- The posts that match a filter, in its order. -/
def matching (D : Dialect) (t : Tables) (f : PostFilter) : List Post :=
  (t.matchingRows D f).map t.post

end Sql.Tables

namespace ListingQuery

theorem found_eq (D : Dialect) (t : Tables) {f : PostFilter} (h : f.Seeded) :
    (ofFilter f).found D t = .ok ((t.matchingRows D f).map t.joinedRow) := by
  have hplaced : ∀ rows : List PostRecord,
      (rows.map t.joinedRow).mapM (fun j => do
        let place ← (ofFilter f).select.place j.post
        pure (place, j)) = Except.ok (rows.map fun r => (f.rank (t.post r), t.joinedRow r)) := by
    intro rows
    induction rows with
    | nil => rfl
    | cons r rest ih =>
      have hr : (ofFilter f).select.place (t.joinedRow r).post = .ok (f.rank (t.post r)) :=
        PostFilter.place_eq_rank h t r
      rw [List.map_cons, List.mapM_cons, hr, ih]
      rfl
  have hsource : (ofFilter f).select.source D t =
      .ok ((t.posts.filter fun r => f.Matches D t r).map t.joinedRow) := source_eq D t h
  rw [found, Select.found, hsource]
  simp only [bind, Except.bind] at hplaced ⊢
  rw [hplaced]
  simp only [pure, Except.pure, Tables.matchingRows]
  rw [← List.map_mergeSort (r := fun a b => decide (f.rank (t.post a) ≤ f.rank (t.post b)))
    (f := fun r => (f.rank (t.post r), t.joinedRow r)) fun a _ b _ => rfl, List.map_map]
  rfl

end ListingQuery

/-! ## Result rows -/

/-- An array of texts is read as it was gathered, a null as none. -/
theorem asTexts_gathered {α : Type} (g : α → String) (rows : Option (List α)) :
    (gatheredTexts g rows).asTexts = .value ((rows.getD []).map g) := by
  cases rows with
  | none => rfl
  | some rows =>
    have h : (rows.map fun r => some (g r)).mapM id = some (rows.map g) := by
      induction rows with
      | nil => rfl
      | cons r rest ih => rw [List.map_cons, List.mapM_cons, ih]; rfl
    simp [gatheredTexts, Cell.asTexts, Cell.entries, h]

theorem asDoubles_gathered {α : Type} (g : α → Double) (rows : Option (List α)) :
    (gatheredDoubles g rows).asDoubles = .value ((rows.getD []).map g) := by
  cases rows with
  | none => rfl
  | some rows =>
    have h : (rows.map fun r => some (g r)).mapM id = some (rows.map g) := by
      induction rows with
      | nil => rfl
      | cons r rest ih => rw [List.map_cons, List.mapM_cons, ih]; rfl
    simp [gatheredDoubles, Cell.asDoubles, Cell.entries, h]

theorem orNull_sorted {α : Type} (le : α → α → Bool) (rows : List α) :
    ((orNull rows).map (·.mergeSort le)).getD [] = rows.mergeSort le := by
  cases rows <;> simp [orNull]

theorem zipColors_self (colors : List Color) :
    PostRow.zipColors (colors.map (·.hex)) (colors.map (·.css)) (colors.map (·.html))
      (colors.map (·.percent)) = some colors := by
  induction colors with
  | nil => rfl
  | cons c rest ih => simp [PostRow.zipColors, ih]

theorem zipKeywords_self (keywords : List Keyword) :
    PostRow.zipKeywords (keywords.map (·.word)) (keywords.map (·.weight)) = some keywords := by
  induction keywords with
  | nil => rfl
  | cons k rest ih => simp [PostRow.zipKeywords, ih]

theorem zipColors_map (rows : List ColorRecord) :
    PostRow.zipColors (rows.map (·.hex)) (rows.map (·.css)) (rows.map (·.html))
        (rows.map (·.percent)) =
      some (rows.map fun c => ⟨c.hex, c.css, c.html, c.percent⟩) := by
  simpa [Function.comp_def] using
    zipColors_self (rows.map fun c => ⟨c.hex, c.css, c.html, c.percent⟩)

theorem zipKeywords_map (rows : List KeywordRecord) :
    PostRow.zipKeywords (rows.map (·.word)) (rows.map (·.weight)) =
      some (rows.map fun k => ⟨k.word, k.weight⟩) := by
  simpa [Function.comp_def] using zipKeywords_self (rows.map fun k => ⟨k.word, k.weight⟩)

/-- What is read from the result row of a post. -/
def Sql.Tables.read (t : Tables) (total : Nat) (r : PostRecord) : PostRow :=
  let colors := (t.colorsOf r.id).mergeSort ColorRecord.before
  let keywords := (t.keywordsOf r.id).mergeSort KeywordRecord.before
  { id := r.id, url := r.url, title := r.title, author := r.author, permalink := r.permalink
    score := r.score, nsfw := r.nsfw, grayscale := r.grayscale, sprocket := r.sprocket
    time := r.time, width := r.width, height := r.height
    lowUrl := r.lowUrl, lowWidth := r.lowWidth, lowHeight := r.lowHeight
    mediumUrl := r.mediumUrl, mediumWidth := r.mediumWidth, mediumHeight := r.mediumHeight
    highUrl := r.highUrl, highWidth := r.highWidth, highHeight := r.highHeight
    hexes := colors.map (·.hex), csses := colors.map (·.css), htmls := colors.map (·.html)
    percents := colors.map (·.percent), words := keywords.map (·.word)
    weights := keywords.map (·.weight), totalCount := total }

theorem lookup_of_nodup {row : Row} (hd : (row.map (·.1)).Nodup) {i : ℕ} {name : String} {c : Cell}
    (hi : row[i]? = some (name, c)) : row.lookup name = some c := by
  induction row generalizing i with
  | nil => simp at hi
  | cons cell rest ih =>
    obtain ⟨first, d⟩ := cell
    rw [List.map_cons, List.nodup_cons] at hd
    cases i with
    | zero =>
      simp only [List.getElem?_cons_zero, Option.some.injEq, Prod.mk.injEq] at hi
      rw [hi.1, hi.2, List.lookup_cons_self]
    | succ i =>
      have hne : name ≠ first := by
        rintro rfl
        exact hd.1 (List.mem_map.2 ⟨_, List.mem_of_getElem? hi, rfl⟩)
      rw [List.lookup_cons, beq_false_of_ne hne]
      exact ih hd.2 hi

theorem names_nodup (total : ℕ) (j : JoinedRow) : ((j.cells total).map (·.1)).Nodup := by
  show (PostRow.columns.map (·.1)).Nodup
  simp [PostRow.columns]

theorem column_of_lookup {row : Row} {α : Type} {read : Cell → Cell.Reading α} {name : String}
    {c : Cell} {a : α} (h : row.lookup name = some c) (ha : read c = .value a) :
    row.column read name = .ok a := by
  simp [Row.column, h, Row.check, ha]

/-- The column at a place of a result row is read by its name. -/
theorem column_cells (total : ℕ) (j : JoinedRow) {α : Type} (read : Cell → Cell.Reading α) (i : ℕ)
    {name : String} {c : Cell} {a : α} (hi : (j.cells total)[i]? = some (name, c))
    (ha : read c = .value a) : Row.column (j.cells total) read name = .ok a :=
  column_of_lookup (lookup_of_nodup (names_nodup total j) hi) ha

/-- Every column of a result row is there with its type. -/
theorem ofRow_cells (t : Tables) (total : ℕ) (r : PostRecord) :
    PostRow.ofRow ((t.joinedRow r).cells total) = .ok (t.read total r) := by
  have ht := fun (g : ColorRecord → String) => asTexts_gathered g
    ((orNull (t.colorsOf r.id)).map (·.mergeSort ColorRecord.before))
  have hd := asDoubles_gathered (·.percent)
    ((orNull (t.colorsOf r.id)).map (·.mergeSort ColorRecord.before))
  have hw := asTexts_gathered (·.word)
    ((orNull (t.keywordsOf r.id)).map (·.mergeSort KeywordRecord.before))
  have hx := asDoubles_gathered (·.weight)
    ((orNull (t.keywordsOf r.id)).map (·.mergeSort KeywordRecord.before))
  have hc := @column_cells total (t.joinedRow r)
  simp only [orNull_sorted] at ht hd hw hx
  simp only [PostRow.ofRow, hc Cell.asInt 0 rfl rfl, hc Cell.asText 1 rfl rfl,
    hc Cell.asText 2 rfl rfl, hc Cell.asText 3 rfl rfl, hc Cell.asText 4 rfl rfl,
    hc Cell.asInt 5 rfl rfl, hc Cell.asBool 6 rfl rfl, hc Cell.asBool 7 rfl rfl,
    hc Cell.asBool 8 rfl rfl, hc Cell.asInt 9 rfl rfl, hc Cell.asInt 10 rfl rfl,
    hc Cell.asInt 11 rfl rfl, hc Cell.asText 12 rfl rfl, hc Cell.asInt 13 rfl rfl,
    hc Cell.asInt 14 rfl rfl, hc Cell.asText 15 rfl rfl, hc Cell.asInt 16 rfl rfl,
    hc Cell.asInt 17 rfl rfl, hc Cell.asText 18 rfl rfl, hc Cell.asInt 19 rfl rfl,
    hc Cell.asInt 20 rfl rfl, hc Cell.asTexts 21 rfl (ht _), hc Cell.asTexts 22 rfl (ht _),
    hc Cell.asTexts 23 rfl (ht _), hc Cell.asDoubles 24 rfl hd, hc Cell.asTexts 25 rfl hw,
    hc Cell.asDoubles 26 rfl hx, hc Cell.asInt 27 rfl rfl, ok_bind, pure_eq_ok]
  rfl

/-- The post of what was read from a result row. -/
theorem toPost_read (t : Tables) (total : Nat) (r : PostRecord) :
    (t.read total r).toPost = .ok (t.post r) := by
  simp only [PostRow.toPost, Tables.read, zipColors_map, zipKeywords_map]
  rfl

/-! ## Pages -/

theorem limited_map {α β : Type} (q : ListingQuery) (g : α → β) (rows : List α) :
    q.limited (rows.map g) = (q.limited rows).map g := by
  show q.select.limited (rows.map g) = (q.select.limited rows).map g
  unfold Select.limited
  cases q.select.limit with
  | none => rfl
  | some n => exact List.map_take.symm

/-- The result rows of a filter with a positive seed: the matching rows in its
order, as many as its limit lets through, each with the number of all. -/
theorem ListingQuery.answer_eq (D : Dialect) (t : Tables) {f : PostFilter} (h : f.Seeded) :
    (ofFilter f).answer D t = .ok (((ofFilter f).limited (t.matchingRows D f)).map fun r =>
      (t.joinedRow r).cells (t.matchingRows D f).length) := by
  have hfound : (ofFilter f).select.found D t = .ok ((t.matchingRows D f).map t.joinedRow) :=
    found_eq D t h
  have hlimited : (ofFilter f).select.limited ((t.matchingRows D f).map t.joinedRow) =
      ((ofFilter f).limited (t.matchingRows D f)).map t.joinedRow := limited_map _ _ _
  rw [answer, Select.answer, hfound, ok_bind, hlimited, List.map_map, List.length_map]
  exact congrArg Except.ok (List.map_congr_left fun r _ => row_select _ _ _)

/-- What a store makes of result rows: the posts of the rows, and the number
that each of them tells. -/
theorem pageOf_cells (t : Tables) (total : ℕ) (rows : List PostRecord) :
    Operation.pageOf (rows.map fun r => (t.joinedRow r).cells total) =
      .done ⟨rows.map t.post, if rows.isEmpty then 0 else total⟩ := by
  have hread : (rows.map fun r => (t.joinedRow r).cells total).mapM PostRow.ofRow =
      .ok (rows.map (t.read total)) := mapM_ok (ofRow_cells t total) rows
  have hposts : (rows.map (t.read total)).mapM PostRow.toPost = .ok (rows.map t.post) :=
    mapM_ok (toPost_read t total) rows
  have htotal : ((rows.map (t.read total)).head?.map (·.totalCount)).getD 0 =
      if rows.isEmpty then 0 else (total : Int) := by
    cases rows <;> simp [Tables.read]
  rw [Operation.pageOf, hread]
  show (Program.ofStore ((rows.map (t.read total)).mapM PostRow.toPost)).bind _ = _
  rw [hposts, ← htotal]
  rfl

/-- The page of a filter with a positive seed: the matching posts in its order,
as many as its limit lets through. Each row tells how many there were. -/
theorem page_eq (D : Dialect) (t : Tables) {f : PostFilter} (h : f.Seeded) :
    t.page D f = .ok
      ⟨(ListingQuery.ofFilter f).limited (t.matching D f),
        if ((ListingQuery.ofFilter f).limited (t.matching D f)).isEmpty then 0
        else (t.matching D f).length⟩ := by
  rw [Tables.matching, limited_map, List.isEmpty_map, List.length_map]
  set rows := (ListingQuery.ofFilter f).limited (t.matchingRows D f)
  set total := (t.matchingRows D f).length
  have hsend : (t.snapshot D).send (.run (.listing (ListingQuery.ofFilter f))) =
      (.ok (rows.map fun r => (t.joinedRow r).cells total) : Reply) := by
    simp only [Tables.snapshot, ListingQuery.answer_eq D t h]
    rfl
  have hrun : (Program.listing f).run (t.snapshot D) =
      ExceptT.mk (m := Id) (.ok ⟨rows.map t.post, if rows.isEmpty then 0 else (total : Int)⟩) := by
    show ((Program.rows (.listing (ListingQuery.ofFilter f))).bind Operation.pageOf).run
      (t.snapshot D) = _
    rw [Program.rows, Program.bind, Program.run]
    simp only [hsend]
    show (Operation.pageOf (rows.map fun r => (t.joinedRow r).cells total)).run
      (t.snapshot D) = _
    rw [pageOf_cells]
    rfl
  show ((t.snapshot D).transaction (Program.listing f)).run = _
  rw [Link.transaction, hrun]
  rfl

end FilmCatalog
