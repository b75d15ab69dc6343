import FilmCatalog.Proofs.Json.Schema
import FilmCatalog.Proofs.Listing.Page

/-!
# From result rows to a page

A listing makes a page of all its result rows or of none. A row is typed if every
column is there with a value of its type, where a null counts as an array without
entries. Of typed rows one is enough to spoil the page: one whose arrays for the
colors, or for the keywords, differ in length. If there is none, the page has one
post for each row, and the arrays of a row are exactly the parts of the children of
its post, so that nothing was cut off.

Key definitions: `Cell.StandsFor`, `Row.Typed`, `Row.Reads`, `Row.Mismatched`, `Row.Shows`.
Key theorems: `PostRow.ofRow_eq_ok_iff`, `Row.typed_iff`, `PostRow.toPost_eq_ok_iff`,
`PostRow.mismatched_iff`, `page_is_whole`.
-/

namespace FilmCatalog

/-! ## Cells -/

namespace Cell

/-- Whether a cell is the value `d`, or a null in the place of an array without entries. -/
def StandsFor (c d : Cell) : Prop := c = d ∨ c = .null ∧ (d = .texts [] ∨ d = .doubles [])

/-- Whether a cell has a value of a type. No entry of an array is null. -/
def HasType (c : Cell) : ColumnType → Prop
  | .bool => ∃ b, c.StandsFor (.bool b)
  | .int => ∃ n, c.StandsFor (.int n)
  | .double => ∃ x, c.StandsFor (.double x)
  | .text => ∃ s, c.StandsFor (.text s)
  | .texts => ∃ xs : List String, c.StandsFor (.texts (xs.map some))
  | .doubles => ∃ xs : List Double, c.StandsFor (.doubles (xs.map some))

/-- How many entries a cell has, if it is an array. -/
def size : Cell → ℕ
  | .texts xs => xs.length
  | .doubles xs => xs.length
  | _ => 0

theorem StandsFor.size_eq {c d : Cell} (h : c.StandsFor d) : c.size = d.size := by
  rcases h with rfl | ⟨rfl, rfl | rfl⟩ <;> rfl

theorem entries_eq_value_iff {α : Type} {xs : List (Option α)} {ys : List α} :
    entries xs = .value ys ↔ xs = ys.map some := by
  have hread : xs.mapM id = some ys ↔ xs = ys.map some := by
    rw [Json.mapM_eq_some_iff, ← List.forall₂_eq_eq_eq, List.forall₂_map_right_iff]
    rfl
  rw [← hread, entries]
  cases xs.mapM id with
  | none => simp
  | some zs => simp

theorem asBool_eq_value_iff {c : Cell} {b : Bool} :
    c.asBool = .value b ↔ c.StandsFor (.bool b) := by
  cases c <;> simp [asBool, StandsFor]

theorem asInt_eq_value_iff {c : Cell} {n : ℤ} : c.asInt = .value n ↔ c.StandsFor (.int n) := by
  cases c <;> simp [asInt, StandsFor]

theorem asText_eq_value_iff {c : Cell} {s : String} :
    c.asText = .value s ↔ c.StandsFor (.text s) := by
  cases c <;> simp [asText, StandsFor]

theorem asTexts_eq_value_iff {c : Cell} {xs : List String} :
    c.asTexts = .value xs ↔ c.StandsFor (.texts (xs.map some)) := by
  cases c with
  | null => simp [asTexts, StandsFor, eq_comm (a := [])]
  | _ => simp [asTexts, StandsFor, entries_eq_value_iff]

theorem asDoubles_eq_value_iff {c : Cell} {xs : List Double} :
    c.asDoubles = .value xs ↔ c.StandsFor (.doubles (xs.map some)) := by
  cases c with
  | null => simp [asDoubles, StandsFor, eq_comm (a := [])]
  | _ => simp [asDoubles, StandsFor, entries_eq_value_iff]

end Cell

/-! ## Rows -/

namespace Row

variable {r : Row} {name : String}

/-- Whether every column of a listing is there with a value of its type. -/
def Typed (r : Row) : Prop :=
  ∀ column ∈ PostRow.columns, ∃ c, r.lookup column.1 = some c ∧ c.HasType column.2

/-- Whether a row has a value in a column. -/
def Holds (r : Row) (name : String) (d : Cell) : Prop :=
  ∃ c, r.lookup name = some c ∧ c.StandsFor d

/-- How many entries the array in a column has; a null has none. -/
def size (r : Row) (name : String) : ℕ := ((r.lookup name).map Cell.size).getD 0

/-- Whether the four arrays of the colors differ in length, or the two of the keywords. -/
def Mismatched (r : Row) : Prop :=
  ¬(r.size "csses" = r.size "hexes" ∧ r.size "htmls" = r.size "hexes" ∧
      r.size "percents" = r.size "hexes") ∨
    r.size "weights" ≠ r.size "words"

theorem Holds.size_eq {d : Cell} (h : r.Holds name d) : r.size name = d.size := by
  obtain ⟨c, hc, hd⟩ := h
  rw [size, hc, ← hd.size_eq]
  rfl

/-- A column is read as the value that it has. -/
theorem column_eq_ok_iff {α : Type} {read : Cell → Cell.Reading α} {a : α} {d : Cell}
    (h : ∀ {c}, read c = .value a ↔ c.StandsFor d) :
    r.column read name = .ok a ↔ r.Holds name d := by
  unfold Holds column
  cases r.lookup name with
  | none => simp
  | some c =>
    simp only [Option.some.injEq, exists_eq_left', ← h]
    cases read c <;> simp [check]

theorem exists_holds_iff {α : Type} {cell : α → Cell} :
    (∃ c, r.lookup name = some c ∧ ∃ a, c.StandsFor (cell a)) ↔ ∃ a, r.Holds name (cell a) := by
  unfold Holds
  constructor
  · rintro ⟨c, hc, a, ha⟩
    exact ⟨a, c, hc, ha⟩
  · rintro ⟨a, c, hc, ha⟩
    exact ⟨c, hc, a, ha⟩

end Row

namespace PostRow

/-- The cells of a row, every array in full. -/
def cells (q : PostRow) : List (String × Cell) :=
  [("id", .int q.id), ("url", .text q.url), ("title", .text q.title), ("author", .text q.author),
    ("permalink", .text q.permalink), ("score", .int q.score), ("nsfw", .bool q.nsfw),
    ("grayscale", .bool q.grayscale), ("sprocket", .bool q.sprocket), ("time", .int q.time),
    ("width", .int q.width), ("height", .int q.height), ("low_url", .text q.lowUrl),
    ("low_width", .int q.lowWidth), ("low_height", .int q.lowHeight),
    ("medium_url", .text q.mediumUrl), ("medium_width", .int q.mediumWidth),
    ("medium_height", .int q.mediumHeight), ("high_url", .text q.highUrl),
    ("high_width", .int q.highWidth), ("high_height", .int q.highHeight),
    ("hexes", .texts (q.hexes.map some)), ("csses", .texts (q.csses.map some)),
    ("htmls", .texts (q.htmls.map some)), ("percents", .doubles (q.percents.map some)),
    ("words", .texts (q.words.map some)), ("weights", .doubles (q.weights.map some)),
    ("total_count", .int q.totalCount)]

end PostRow

/-- Whether a row has the cells of another one. -/
def Row.Reads (r : Row) (q : PostRow) : Prop := ∀ cell ∈ q.cells, r.Holds cell.1 cell.2

section

open Row Cell

variable {r : Row} {q : PostRow}

/-- A row is read as the one whose cells it has. -/
theorem PostRow.ofRow_eq_ok_iff : ofRow r = .ok q ↔ r.Reads q := by
  cases q
  simp only [Row.Reads, cells, List.forall_mem_cons, ← column_eq_ok_iff asBool_eq_value_iff,
    ← column_eq_ok_iff asInt_eq_value_iff, ← column_eq_ok_iff asText_eq_value_iff,
    ← column_eq_ok_iff asTexts_eq_value_iff, ← column_eq_ok_iff asDoubles_eq_value_iff]
  simp only [ofRow, bind_eq_ok_iff, pure_eq_ok, Except.ok.injEq, PostRow.mk.injEq, existsAndEq,
    and_true, List.not_mem_nil, false_implies, implies_true]

/-- Exactly the typed rows can be read. -/
theorem Row.typed_iff : r.Typed ↔ ∃ q, PostRow.ofRow r = .ok q := by
  simp only [Typed, PostRow.columns, List.forall_mem_cons, HasType, exists_holds_iff,
    ← column_eq_ok_iff asBool_eq_value_iff, ← column_eq_ok_iff asInt_eq_value_iff,
    ← column_eq_ok_iff asText_eq_value_iff, ← column_eq_ok_iff asTexts_eq_value_iff,
    ← column_eq_ok_iff asDoubles_eq_value_iff]
  simp only [PostRow.ofRow, exists_bind_eq_ok_iff, pure_eq_ok, Except.ok.injEq, exists_eq',
    exists_and_right, and_true, List.not_mem_nil, false_implies, implies_true]

end

/-! ## Posts -/

namespace PostRow

variable {hexes csses htmls words : List String} {percents weights : List Double}

/-- Colors are zipped from the lists of their parts and from nothing else. -/
theorem zipColors_eq_some_iff {colors : List Color} :
    zipColors hexes csses htmls percents = some colors ↔
      hexes = colors.map (·.hex) ∧ csses = colors.map (·.css) ∧ htmls = colors.map (·.html) ∧
        percents = colors.map (·.percent) := by
  constructor
  · intro h
    fun_induction zipColors hexes csses htmls percents generalizing colors with
    | case1 =>
      cases h
      simp
    | case2 hex hexes css csses html htmls percent percents ih =>
      obtain ⟨rest, hrest, rfl⟩ := Option.map_eq_some_iff.1 h
      obtain ⟨rfl, rfl, rfl, rfl⟩ := ih hrest
      simp
    | case3 => cases h
  · rintro ⟨rfl, rfl, rfl, rfl⟩
    exact zipColors_self colors

theorem zipKeywords_eq_some_iff {keywords : List Keyword} :
    zipKeywords words weights = some keywords ↔
      words = keywords.map (·.word) ∧ weights = keywords.map (·.weight) := by
  constructor
  · intro h
    fun_induction zipKeywords words weights generalizing keywords with
    | case1 =>
      cases h
      simp
    | case2 word words weight weights ih =>
      obtain ⟨rest, hrest, rfl⟩ := Option.map_eq_some_iff.1 h
      obtain ⟨rfl, rfl⟩ := ih hrest
      simp
    | case3 => cases h
  · rintro ⟨rfl, rfl⟩
    exact zipKeywords_self keywords

theorem zipColors_isSome :
    (zipColors hexes csses htmls percents).isSome = true ↔
      csses.length = hexes.length ∧ htmls.length = hexes.length ∧
        percents.length = hexes.length := by
  induction hexes generalizing csses htmls percents with
  | nil => cases csses <;> cases htmls <;> cases percents <;> simp [zipColors]
  | cons hex hexes ih =>
    cases csses <;> cases htmls <;> cases percents <;> simp [zipColors, ih]

theorem zipKeywords_isSome :
    (zipKeywords words weights).isSome = true ↔ weights.length = words.length := by
  induction words generalizing weights with
  | nil => cases weights <;> simp [zipKeywords]
  | cons word words ih => cases weights <;> simp [zipKeywords, ih]

end PostRow

/-- The row that shows a post of a listing, its author as stored. -/
def Post.row (p : Post) (author : String) (total : ℤ) : PostRow where
  id := p.id
  url := p.images.raw.url
  title := p.title
  author := author
  permalink := p.permalink
  score := p.score
  nsfw := p.nsfw
  grayscale := p.grayscale
  sprocket := p.sprocket
  time := p.time
  width := p.images.raw.width
  height := p.images.raw.height
  lowUrl := p.images.low.url
  lowWidth := p.images.low.width
  lowHeight := p.images.low.height
  mediumUrl := p.images.medium.url
  mediumWidth := p.images.medium.width
  mediumHeight := p.images.medium.height
  highUrl := p.images.high.url
  highWidth := p.images.high.width
  highHeight := p.images.high.height
  hexes := p.colors.map (·.hex)
  csses := p.colors.map (·.css)
  htmls := p.colors.map (·.html)
  percents := p.colors.map (·.percent)
  words := p.keywords.map (·.word)
  weights := p.keywords.map (·.weight)
  totalCount := total

namespace PostRow

variable {q : PostRow}

/-- A row makes the post that it shows. -/
theorem toPost_eq_ok_iff {p : Post} :
    q.toPost = .ok p ↔ p.author = Author.shown q.author ∧ p.row q.author q.totalCount = q := by
  constructor
  · intro h
    unfold toPost at h
    split at h
    · cases h
    · rename_i colors hcolors
      obtain ⟨hhexes, hcsses, hhtmls, hpercents⟩ := zipColors_eq_some_iff.1 hcolors
      split at h
      · cases h
      · rename_i keywords hkeywords
        obtain ⟨hwords, hweights⟩ := zipKeywords_eq_some_iff.1 hkeywords
        cases h
        refine ⟨rfl, ?_⟩
        simp only [Post.row, images, ← hhexes, ← hcsses, ← hhtmls, ← hpercents, ← hwords,
          ← hweights]
  · rintro ⟨hauthor, hq⟩
    rw [← hq, toPost]
    simp only [Post.row, zipColors_self, zipKeywords_self, ← hauthor]
    rfl

/-- A row of arrays that differ in length is the only one that makes no post. -/
theorem exists_toPost_iff : (∃ p, q.toPost = .ok p) ↔
    (q.csses.length = q.hexes.length ∧ q.htmls.length = q.hexes.length ∧
      q.percents.length = q.hexes.length) ∧ q.weights.length = q.words.length := by
  rw [← zipColors_isSome, ← zipKeywords_isSome, toPost]
  cases zipColors q.hexes q.csses q.htmls q.percents with
  | none => simp
  | some colors =>
    cases zipKeywords q.words q.weights with
    | none => simp
    | some keywords => simp

theorem toPost_error {e : StoreError} (h : q.toPost = .error e) : ∃ text, e = .integrity text := by
  unfold toPost at h
  split at h
  · cases h
    exact ⟨_, rfl⟩
  · split at h
    · cases h
      exact ⟨_, rfl⟩
    · cases h

end PostRow

namespace Row

variable {r : Row} {q : PostRow}

/-- Whether a row shows a post: the author as stored, each array the parts of its children. -/
def Shows (r : Row) (p : Post) : Prop :=
  ∃ author total, p.author = Author.shown author ∧ r.Reads (p.row author total)

theorem Reads.sizes (h : r.Reads q) :
    r.size "hexes" = q.hexes.length ∧ r.size "csses" = q.csses.length ∧
      r.size "htmls" = q.htmls.length ∧ r.size "percents" = q.percents.length ∧
      r.size "words" = q.words.length ∧ r.size "weights" = q.weights.length := by
  simp only [Reads, PostRow.cells, List.forall_mem_cons] at h
  obtain ⟨-, -, -, -, -, -, -, -, -, -, -, -, -, -, -, -, -, -, -, -, -, hhexes, hcsses, hhtmls,
    hpercents, hwords, hweights, -⟩ := h
  rw [hhexes.size_eq, hcsses.size_eq, hhtmls.size_eq, hpercents.size_eq, hwords.size_eq,
    hweights.size_eq]
  simp [Cell.size]

theorem Reads.mismatched_iff (h : r.Reads q) : r.Mismatched ↔ ¬∃ p, q.toPost = .ok p := by
  obtain ⟨hhexes, hcsses, hhtmls, hpercents, hwords, hweights⟩ := h.sizes
  rw [PostRow.exists_toPost_iff, not_and_or, Mismatched, hhexes, hcsses, hhtmls, hpercents, hwords,
    hweights]

theorem Reads.shows {p : Post} (h : r.Reads q) (hpost : q.toPost = .ok p) : r.Shows p := by
  obtain ⟨hauthor, hrow⟩ := PostRow.toPost_eq_ok_iff.1 hpost
  exact ⟨q.author, q.totalCount, hauthor, hrow ▸ h⟩

theorem Reads.total (h : r.Reads q) : r.Holds "total_count" (.int q.totalCount) :=
  h ("total_count", .int q.totalCount) (by simp [PostRow.cells])

end Row

/-! ## Pages -/

/-- Typed rows are read, each as the row whose cells it has. -/
theorem exists_reads {rows : List Row} (h : ∀ r ∈ rows, r.Typed) :
    ∃ read, rows.mapM PostRow.ofRow = .ok read ∧ List.Forall₂ Row.Reads rows read := by
  cases hread : rows.mapM PostRow.ofRow with
  | error e =>
    obtain ⟨r, hr, he⟩ := exists_of_mapM_error hread
    obtain ⟨q, hq⟩ := Row.typed_iff.1 (h r hr)
    rw [hq] at he
    cases he
  | ok read =>
    exact ⟨read, rfl, (mapM_eq_ok_iff.1 hread).imp fun _ _ => PostRow.ofRow_eq_ok_iff.1⟩

/-- Posts are made of all rows exactly if the arrays of none differ in length. -/
theorem exists_posts_iff {rows : List Row} {read : List PostRow}
    (h : List.Forall₂ Row.Reads rows read) :
    (∃ posts, read.mapM PostRow.toPost = .ok posts) ↔ ¬∃ r ∈ rows, r.Mismatched := by
  induction h with
  | nil => simp
  | cons hq _ ih =>
    simp only [List.mapM_cons, exists_bind_eq_ok_iff, pure_eq_ok, Except.ok.injEq, exists_eq',
      and_true, exists_and_right, ih, List.mem_cons, exists_eq_or_imp, not_or, hq.mismatched_iff,
      not_not]

theorem shows_of_reads {rows : List Row} {read : List PostRow} {posts : List Post}
    (hreads : List.Forall₂ Row.Reads rows read)
    (hposts : List.Forall₂ (fun q p => q.toPost = .ok p) read posts) :
    List.Forall₂ Row.Shows rows posts := by
  induction hreads generalizing posts with
  | nil =>
    cases hposts
    exact .nil
  | cons hq _ ih =>
    cases hposts with
    | cons hp hrest => exact .cons (hq.shows hp) (ih hrest)

/-- What a listing makes of the rows that it is answered with. -/
theorem listing_of_reply {server : Server} {now : ℤ} {log : Transcript} {f : PostFilter}
    {rows : List Row} (hreply : server log (.run (.listing (.ofFilter f))) = .ok rows) :
    ((Program.listing f).run (server.link now) log).1 =
      match rows.mapM PostRow.ofRow with
      | .error e => .error e.toStoreError
      | .ok read =>
        match read.mapM PostRow.toPost with
        | .error e => .error e
        | .ok posts => .ok ⟨posts, (read.head?.map (·.totalCount)).getD 0⟩ := by
  have hrun : (Program.listing f).run (server.link now) log =
      (Operation.pageOf rows).run (server.link now)
        (log ++ [(.run (.listing (.ofFilter f)), .ok rows)]) := by
    refine (Program.run_send server now _ _ log).trans ?_
    rw [hreply]
    rfl
  rw [hrun, Operation.pageOf]
  cases rows.mapM PostRow.ofRow with
  | error e => rfl
  | ok read =>
    simp only [Program.ofRead, bind, Program.bind]
    cases read.mapM PostRow.toPost with
    | error e => rfl
    | ok posts => rfl

/-- A listing that is answered with rows makes all of them or nothing into a page. Of
typed rows it makes none exactly if the arrays of some row differ in length, and else
one post for each row, in their order, which the row shows, and the total of the first
row. Rows that are not typed make no page either. -/
theorem page_is_whole (server : Server) (now : ℤ) (log : Transcript) (f : PostFilter)
    {rows : List Row} (hreply : server log (.run (.listing (.ofFilter f))) = .ok rows) :
    ((∀ r ∈ rows, r.Typed) →
      ((∃ text, ((Program.listing f).run (server.link now) log).1 = .error (.integrity text)) ↔
        ∃ r ∈ rows, r.Mismatched) ∧
      ((¬∃ r ∈ rows, r.Mismatched) → ∃ page,
        ((Program.listing f).run (server.link now) log).1 = .ok page ∧
        List.Forall₂ Row.Shows rows page.posts ∧
        (∀ r ∈ rows.head?, r.Holds "total_count" (.int page.total)) ∧
        (rows = [] → page.total = 0))) ∧
    ((∃ r ∈ rows, ¬r.Typed) → ∃ e : DatabaseFault,
      ((Program.listing f).run (server.link now) log).1 = .error e.toStoreError) := by
  rw [listing_of_reply hreply]
  constructor
  · intro htyped
    obtain ⟨read, hread, hreads⟩ := exists_reads htyped
    have hposts := exists_posts_iff hreads
    rw [hread]
    cases hmade : read.mapM PostRow.toPost with
    | error e =>
      simp only [hmade] at hposts ⊢
      obtain ⟨q, -, he⟩ := exists_of_mapM_error hmade
      obtain ⟨text, rfl⟩ := PostRow.toPost_error he
      have hbad : ∃ r ∈ rows, r.Mismatched := by
        by_contra hnone
        simpa using hposts.2 hnone
      exact ⟨iff_of_true ⟨text, rfl⟩ hbad, fun hnone => absurd hbad hnone⟩
    | ok posts =>
      have hgood := hposts.1 ⟨posts, hmade⟩
      simp only [hmade]
      refine ⟨iff_of_false (by simp) hgood, fun _ => ⟨_, rfl,
        shows_of_reads hreads (mapM_eq_ok_iff.1 hmade), ?_, ?_⟩⟩
      · cases hreads with
        | nil => simp
        | cons hq _ => simpa using hq.total
      · rintro rfl
        cases hreads
        rfl
  · rintro ⟨r, hr, hnot⟩
    cases hread : rows.mapM PostRow.ofRow with
    | error e => exact ⟨e, rfl⟩
    | ok read =>
      refine absurd ?_ hnot
      obtain ⟨q, hq⟩ := exists_of_mapM_ok hread hr
      exact Row.typed_iff.2 ⟨q, hq⟩

/-- A row with two colors, as far as their shares are there, and without keywords. -/
def fieldRow (id : ℤ) (percents : List Double) : Row :=
  [("id", .int id), ("url", .text "raw"), ("title", .text "field"), ("author", .text "u/ada"),
    ("permalink", .text "/r/analog/3"), ("score", .int 12), ("nsfw", .bool false),
    ("grayscale", .bool true), ("sprocket", .bool false), ("time", .int 1600000000),
    ("width", .int 4000), ("height", .int 2667), ("low_url", .text "low"),
    ("low_width", .int 320), ("low_height", .int 213), ("medium_url", .text "medium"),
    ("medium_width", .int 768), ("medium_height", .int 512), ("high_url", .text "high"),
    ("high_width", .int 1280), ("high_height", .int 853),
    ("hexes", .texts [some "#111111", some "#eeeeee"]),
    ("csses", .texts [some "black", some "white"]),
    ("htmls", .texts [some "Black", some "White"]), ("percents", .doubles (percents.map some)),
    ("words", .null), ("weights", .null), ("total_count", .int 41)]

/-- A short array in the second of two rows spoils the page, which the first row alone makes. -/
theorem short_array_spoils_page :
    let whole := fieldRow 3 [.zero false, .zero false]
    let short := fieldRow 4 [.zero false]
    let found (rows : List Row) :=
      ((Program.listing .everything).run (Server.link (fun _ _ => .ok rows) 0) []).1
    (∀ r ∈ [whole, short], r.Typed) ∧
      (∃ text, found [whole, short] = .error (.integrity text)) ∧
      ∃ page, found [whole] = .ok page ∧ List.Forall₂ Row.Shows [whole] page.posts ∧
        page.total = 41 := by
  intro whole short found
  have htyped : ∀ r ∈ [whole, short], r.Typed := by
    rintro r (_ | ⟨_, _ | ⟨_, ⟨⟩⟩⟩)
    · exact Row.typed_iff.2 ⟨_, rfl⟩
    · exact Row.typed_iff.2 ⟨_, rfl⟩
  have hshort : short.Mismatched := .inl fun h => absurd h.2.2 (by decide)
  have hwhole : ¬whole.Mismatched := by
    rintro (h | h)
    · exact h ⟨rfl, rfl, rfl⟩
    · exact h rfl
  obtain ⟨hspoilt, -⟩ :=
    (page_is_whole (fun _ _ => .ok [whole, short]) 0 [] .everything rfl).1 htyped
  obtain ⟨-, hmade⟩ := (page_is_whole (fun _ _ => .ok [whole]) 0 [] .everything rfl).1
    fun r hr => htyped r (by simp_all)
  obtain ⟨page, hpage, hshows, htotal, -⟩ := hmade (by simpa using hwhole)
  refine ⟨htyped, hspoilt.2 ⟨short, by simp, hshort⟩, page, hpage, hshows, ?_⟩
  obtain ⟨c, hc, hcell⟩ := htotal whole rfl
  cases hc
  simpa [Cell.StandsFor, eq_comm] using hcell

end FilmCatalog
