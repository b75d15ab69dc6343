import FilmCatalog.Proofs.Listing.Page
import FilmCatalog.Proofs.Sql.Database
import FilmCatalog.Proofs.Post.Author

/-!
# Inserted posts are read back

The columns that a new post is written to are those that a listing reads, each
with the same meaning, and the arrays of its children are put together again as
they were taken apart. Only the order of the children is another one: a listing
shows colors by share and keywords by weight, the greatest first, and equal ones
in the order in which they were inserted (`byShare`, `byWeight`).

Key definitions: `byShare`, `byWeight`, `NewPost.readBack`, `SqlValue.cell?`.
Key theorems: `sorted_colorRows`, `sorted_keywordRows`, `post_inserted`,
`inserted_reads_back`.
-/

namespace FilmCatalog

open Sql

/-! ## The order of children -/

/-- Colors by their share, the greatest first. -/
def byShare (colors : List Color) : List Color :=
  colors.mergeSort fun a b => decide (b.percent.standing ≤ a.percent.standing)

/-- Keywords by their weight, the greatest first. -/
def byWeight (keywords : List Keyword) : List Keyword :=
  keywords.mergeSort fun a b => decide (b.weight.standing ≤ a.weight.standing)

section Numbered

variable {α ρ : Type} (score : α → Int)

theorem numbered_eq_map (row : Int → α → ρ) (first : Int) (n : ℕ) (as : List α) :
    numbered row (first + n) as = (as.zipIdx n).map fun x => row (first + x.2) x.1 := by
  induction as generalizing n with
  | nil => rfl
  | cons a rest ih =>
    have hnext := ih (n + 1)
    rw [Nat.cast_add, Nat.cast_one, ← add_assoc] at hnext
    rw [numbered, hnext, List.zipIdx_cons, List.map_cons]

/-- Rows that are numbered in the order of what they are for, sorted by a score
and then by their numbers, are for the same things as sorted by the score alone. -/
theorem map_mergeSort_numbered {row : Int → α → ρ} {back : ρ → α} {before : ρ → ρ → Bool}
    (hback : ∀ id a, back (row id a) = a)
    (hbefore : ∀ i a j b, before (row i a) (row j b) =
      (decide (score b < score a) || (!decide (score a < score b) && decide (i ≤ j))))
    (first : Int) (as : List α) :
    ((numbered row first as).mergeSort before).map back =
      as.mergeSort fun a b => decide (score b ≤ score a) := by
  have hrows := numbered_eq_map row first 0 as
  rw [Nat.cast_zero, add_zero] at hrows
  -- the numbers of the rows are the places by which a stable sort can be told
  have hsame : ∀ x y : α × ℕ, List.zipIdxLE (fun a b => decide (score b ≤ score a)) x y =
      before (row (first + x.2) x.1) (row (first + y.2) y.1) := by
    intro x y
    rw [hbefore]
    unfold List.zipIdxLE
    rcases lt_trichotomy (score x.1) (score y.1) with h | h | h
    · simp [h, h.not_ge, h.not_gt]
    · simp [h]
    · simp [h, h.le, h.not_ge]
  have hsorted := List.map_mergeSort (f := fun x : α × ℕ => row (first + x.2) x.1) (l := as.zipIdx)
    fun x _ y _ => hsame x y
  rw [hrows, ← hsorted, List.map_map]
  exact (List.map_congr_left fun x _ => hback _ x.1).trans List.mergeSort_zipIdx

end Numbered

theorem sorted_colorRows (post first : Int) (colors : List Color) :
    ((colorRows post first colors).mergeSort ColorRecord.before).map ColorRecord.color =
      byShare colors := by
  refine map_mergeSort_numbered (fun c : Color => c.percent.standing) (fun id c => ?_)
    (fun i a j b => ?_) first colors
  · rfl
  · rfl

theorem sorted_keywordRows (post first : Int) (keywords : List Keyword) :
    ((keywordRows post first keywords).mergeSort KeywordRecord.before).map KeywordRecord.keyword =
      byWeight keywords := by
  refine map_mergeSort_numbered (fun k : Keyword => k.weight.standing) (fun id k => ?_)
    (fun i a j b => ?_) first keywords
  · rfl
  · rfl

/-! ## Posts -/

/-- What a reader sees of a new post under its id. -/
def NewPost.readBack (p : NewPost) (id : Int) : Post :=
  { p.toPost id with colors := byShare p.colors, keywords := byWeight p.keywords }

/-- The post of the rows that were inserted for a new post. -/
theorem post_inserted (t : Tables) (p : NewPost) {id firstColor firstKeyword : Int}
    (hcolors : t.colorsOf id = colorRows id firstColor p.colors)
    (hkeywords : t.keywordsOf id = keywordRows id firstKeyword p.keywords) :
    t.post (p.record id) = p.readBack id := by
  have hc := sorted_colorRows id firstColor p.colors
  have hk := sorted_keywordRows id firstKeyword p.keywords
  rw [← hcolors] at hc
  rw [← hkeywords] at hk
  rw [NewPost.readBack, ← hc, ← hk]
  rfl

/-! ## Rows -/

/-- The cell that a bound value becomes, if it is no array and no time. -/
def SqlValue.cell? : SqlValue → Option Cell
  | .bool b => some (.bool b)
  | .int4 n => some (.int n)
  | .int8 n => some (.int n)
  | .float8 x => some (.double x)
  | .text s => some (.text s)
  | _ => none

/-- Whether a result row shows what was inserted for a new post: every column
with the value that was bound for it, and its children in arrays. -/
structure NewPost.ShownBy (p : NewPost) (id : Int) (row : Row) : Prop where
  id : row.lookup "id" = some (.int id)
  columns : ∀ c ∈ p.columns, row.lookup c.1 = c.2.cell?
  hexes : row.lookup "hexes" = some (gatheredTexts (·.hex) (orNull (byShare p.colors)))
  csses : row.lookup "csses" = some (gatheredTexts (·.css) (orNull (byShare p.colors)))
  htmls : row.lookup "htmls" = some (gatheredTexts (·.html) (orNull (byShare p.colors)))
  percents : row.lookup "percents" = some (gatheredDoubles (·.percent) (orNull (byShare p.colors)))
  words : row.lookup "words" = some (gatheredTexts (·.word) (orNull (byWeight p.keywords)))
  weights : row.lookup "weights" = some (gatheredDoubles (·.weight) (orNull (byWeight p.keywords)))
  total : ∃ n, row.lookup "total_count" = some (.int n)

theorem getD_orNull {α : Type} (rows : List α) : (orNull rows).getD [] = rows := by
  cases rows <;> rfl

/-- A row that shows a new post is read as that post. -/
theorem NewPost.ShownBy.reads_back {p : NewPost} {id : Int} {row : Row} (h : p.ShownBy id row) :
    ∃ read, PostRow.ofRow row = .ok read ∧ read.toPost = .ok (p.readBack id) := by
  obtain ⟨n, htotal⟩ := h.total
  have hcolumns := h.columns
  simp only [NewPost.columns, List.forall_mem_cons, SqlValue.cell?] at hcolumns
  obtain ⟨hurl, htitle, hauthor, hpermalink, hscore, hnsfw, hgrayscale, hsprocket, htime, hwidth,
    hheight, hlowUrl, hlowWidth, hlowHeight, hmediumUrl, hmediumWidth, hmediumHeight, hhighUrl,
    hhighWidth, hhighHeight, -⟩ := hcolumns
  have ht := fun (g : Color → String) => asTexts_gathered g (orNull (byShare p.colors))
  have hd := asDoubles_gathered (·.percent) (orNull (byShare p.colors))
  have hw := asTexts_gathered (·.word) (orNull (byWeight p.keywords))
  have hx := asDoubles_gathered (·.weight) (orNull (byWeight p.keywords))
  simp only [getD_orNull] at ht hd hw hx
  have hc := fun {α} (read : Cell → Cell.Reading α) {name c a} =>
    @column_of_lookup row α read name c a
  simp only [PostRow.ofRow, hc Cell.asInt h.id rfl, hc Cell.asText hurl rfl,
    hc Cell.asText htitle rfl, hc Cell.asText hauthor rfl, hc Cell.asText hpermalink rfl,
    hc Cell.asInt hscore rfl, hc Cell.asBool hnsfw rfl, hc Cell.asBool hgrayscale rfl,
    hc Cell.asBool hsprocket rfl, hc Cell.asInt htime rfl, hc Cell.asInt hwidth rfl,
    hc Cell.asInt hheight rfl, hc Cell.asText hlowUrl rfl, hc Cell.asInt hlowWidth rfl,
    hc Cell.asInt hlowHeight rfl, hc Cell.asText hmediumUrl rfl, hc Cell.asInt hmediumWidth rfl,
    hc Cell.asInt hmediumHeight rfl, hc Cell.asText hhighUrl rfl, hc Cell.asInt hhighWidth rfl,
    hc Cell.asInt hhighHeight rfl, hc Cell.asTexts h.hexes (ht _), hc Cell.asTexts h.csses (ht _),
    hc Cell.asTexts h.htmls (ht _), hc Cell.asDoubles h.percents hd, hc Cell.asTexts h.words hw,
    hc Cell.asDoubles h.weights hx, hc Cell.asInt htotal rfl, ok_bind, pure_eq_ok,
    Except.ok.injEq, exists_eq_left']
  simp only [PostRow.toPost, zipColors_self, zipKeywords_self]
  rfl

theorem orNull_map_sorted {α β : Type} (g : α → β) (le : α → α → Bool) (rows : List α) :
    orNull ((rows.mergeSort le).map g) = (orNull rows).map fun rs => (rs.mergeSort le).map g := by
  have hempty : ((rows.mergeSort le).map g).isEmpty = rows.isEmpty := by
    rw [List.isEmpty_map, (List.mergeSort_perm rows le).isEmpty_eq]
  rw [orNull, orNull, hempty]
  split <;> rfl

theorem gatheredTexts_sorted {α β : Type} (f : β → String) (g : α → β) (le : α → α → Bool)
    (rows : List α) :
    gatheredTexts (fun r => f (g r)) ((orNull rows).map (·.mergeSort le)) =
      gatheredTexts f (orNull ((rows.mergeSort le).map g)) := by
  rw [orNull_map_sorted]
  cases orNull rows <;> simp [gatheredTexts]

theorem gatheredDoubles_sorted {α β : Type} (f : β → Double) (g : α → β) (le : α → α → Bool)
    (rows : List α) :
    gatheredDoubles (fun r => f (g r)) ((orNull rows).map (·.mergeSort le)) =
      gatheredDoubles f (orNull ((rows.mergeSort le).map g)) := by
  rw [orNull_map_sorted]
  cases orNull rows <;> simp [gatheredDoubles]

/-- A listing shows every column that a new post was written to with its value. -/
theorem shownBy_cells (p : NewPost) (id firstColor firstKeyword : Int) (total : ℕ) :
    p.ShownBy id ((⟨p.record id, orNull (colorRows id firstColor p.colors),
      orNull (keywordRows id firstKeyword p.keywords)⟩ : JoinedRow).cells total) := by
  have hat := fun {name cell} (i : ℕ) => @lookup_of_nodup _ (names_nodup total
    ⟨p.record id, orNull (colorRows id firstColor p.colors),
      orNull (keywordRows id firstKeyword p.keywords)⟩) i name cell
  have hcolors := sorted_colorRows id firstColor p.colors
  have hkeywords := sorted_keywordRows id firstKeyword p.keywords
  refine {
    id := hat 0 rfl
    columns := ?_
    hexes := (hat 21 rfl).trans ?_
    csses := (hat 22 rfl).trans ?_
    htmls := (hat 23 rfl).trans ?_
    percents := (hat 24 rfl).trans ?_
    words := (hat 25 rfl).trans ?_
    weights := (hat 26 rfl).trans ?_
    total := ⟨_, hat 27 rfl⟩ }
  · simp only [NewPost.columns, List.forall_mem_cons, List.not_mem_nil, IsEmpty.forall_iff,
      implies_true, and_true]
    exact ⟨hat 1 rfl, hat 2 rfl, hat 3 rfl, hat 4 rfl, hat 5 rfl, hat 6 rfl, hat 7 rfl, hat 8 rfl,
      hat 9 rfl, hat 10 rfl, hat 11 rfl, hat 12 rfl, hat 13 rfl, hat 14 rfl, hat 15 rfl,
      hat 16 rfl, hat 17 rfl, hat 18 rfl, hat 19 rfl, hat 20 rfl⟩
  · rw [← hcolors, ← gatheredTexts_sorted]
    rfl
  · rw [← hcolors, ← gatheredTexts_sorted]
    rfl
  · rw [← hcolors, ← gatheredTexts_sorted]
    rfl
  · rw [← hcolors, ← gatheredDoubles_sorted]
    rfl
  · rw [← hkeywords, ← gatheredTexts_sorted]
    rfl
  · rw [← hkeywords, ← gatheredDoubles_sorted]
    rfl

/-! ## Submissions -/

/-- What is kept of a submission that is accepted. -/
structure Submission.Accepted (s : Submission) (p : NewPost) : Prop where
  images : s.images = [p.images.low, p.images.medium, p.images.high, p.images.raw]
  author : p.author = Author.stored s.author
  colors : p.colors = s.colors
  keywords : p.keywords = s.keywords
  permalink : p.permalink = s.permalink
  enough : p.colors.length = requiredColors

theorem ImageSet.eq_of_ofList {images : List Image} {set : ImageSet} (h : ofList images = .ok set) :
    images = [set.low, set.medium, set.high, set.raw] := by
  unfold ofList at h
  split at h
  · cases h
    rfl
  · cases h

theorem Submission.accepted {s : Submission} {p : NewPost} (h : s.validate = .ok p) :
    s.Accepted p := by
  by_cases hcount : s.colors.length = requiredColors
  · by_cases hblank : (Text.trim s.permalink).isEmpty = true
    · simp [Submission.validate, hcount, hblank, bind, Except.bind, throw, throwThe,
        MonadExceptOf.throw] at h
    · simp only [Submission.validate, hcount, hblank, ne_eq, not_true_eq_false, if_false,
        Bool.false_eq_true] at h
      obtain ⟨images, himages, h⟩ := bind_eq_ok_iff.1 h
      rw [pure_eq_ok, Except.ok.injEq] at h
      rw [← h]
      exact {
        images := ImageSet.eq_of_ofList himages
        author := by dsimp only
        colors := by dsimp only
        keywords := by dsimp only
        permalink := by dsimp only
        enough := hcount }
  · simp [Submission.validate, hcount, bind, Except.bind, throw, throwThe,
      MonadExceptOf.throw] at h

/-- A result row that shows what the statements for an accepted submission bind
is read as the post itself, its children in the order of listings and its author
without the mark. Such a row is what a listing makes of the rows that these
statements insert. -/
theorem inserted_reads_back (s : Submission) (p : NewPost) (h : s.validate = .ok p)
    (id firstColor firstKeyword : Int) :
    (∀ row, p.ShownBy id row →
      ∃ read, PostRow.ofRow row = .ok read ∧
        read.toPost = .ok { p.toPost id with
          colors := byShare p.colors, keywords := byWeight p.keywords }) ∧
    (∃ record colors keywords,
      postLayout.row id p.columns = .ok record ∧
      colorLayout.childRows firstColor id (colorArrays p.colors) = .ok colors ∧
      keywordLayout.childRows firstKeyword id (keywordArrays p.keywords) = .ok keywords ∧
      ∀ total, p.ShownBy id
        ((⟨record, orNull colors, orNull keywords⟩ : JoinedRow).cells total)) ∧
    (Action.insertPost p.columns).fragment = (Command.insertPost p).fragment ∧
    (Action.insertChildren .colors id (colorArrays p.colors)).fragment =
      (Command.insertColors id p.colors).fragment ∧
    (Action.insertChildren .keywords id (keywordArrays p.keywords)).fragment =
      (Command.insertKeywords id p.keywords).fragment ∧
    s.images = [p.images.low, p.images.medium, p.images.high, p.images.raw] ∧
    Author.mark ++ (p.toPost id).author = Author.stored s.author := by
  have haccepted := Submission.accepted h
  refine ⟨fun row hrow => hrow.reads_back, ⟨p.record id, colorRows id firstColor p.colors,
    keywordRows id firstKeyword p.keywords, postLayout_row p id, childRows_colors _ _ _,
    childRows_keywords _ _ _, shownBy_cells p id firstColor firstKeyword⟩, rfl,
    fragment_insertColors id p.colors, fragment_insertKeywords id p.keywords,
    haccepted.images, ?_⟩
  rw [← haccepted.author]
  exact Author.mark_shown (haccepted.author ▸ Author.marked_stored s.author)

/-- Five colors, the smallest first and two of the same share, and two keywords. -/
def Submission.sample : Submission where
  title := "Roll 4"
  author := "alice"
  permalink := "/r/analog/4"
  score := 1
  nsfw := false
  grayscale := false
  sprocket := false
  time := 40
  images := [⟨"low", 3, 2⟩, ⟨"medium", 6, 4⟩, ⟨"high", 9, 6⟩, ⟨"raw", 12, 8⟩]
  colors := [⟨"#000000", "black", "black", Double.ofInt 10⟩,
    ⟨"#008080", "teal", "teal", Double.ofInt 15⟩, ⟨"#808080", "gray", "gray", Double.ofInt 15⟩,
    ⟨"#ff0000", "red", "red", Double.ofInt 20⟩, ⟨"#ffffff", "white", "white", Double.ofInt 40⟩]
  keywords := [⟨"fuji", Double.ofInt 1⟩, ⟨"street", Double.ofInt 2⟩]

/-- What is stored of the sample. -/
def NewPost.sample : NewPost where
  title := "Roll 4"
  author := "u/alice"
  permalink := "/r/analog/4"
  score := 1
  nsfw := false
  grayscale := false
  sprocket := false
  time := 40
  images := ⟨⟨"low", 3, 2⟩, ⟨"medium", 6, 4⟩, ⟨"high", 9, 6⟩, ⟨"raw", 12, 8⟩⟩
  colors := Submission.sample.colors
  keywords := Submission.sample.keywords

theorem reads_back_sample :
    Submission.sample.validate = .ok .sample ∧
      ∃ row read, NewPost.sample.ShownBy 4 row ∧ PostRow.ofRow row = .ok read ∧
        read.toPost = .ok { NewPost.sample.toPost 4 with
          colors := byShare NewPost.sample.colors, keywords := byWeight NewPost.sample.keywords } ∧
        (byShare NewPost.sample.colors).map (·.html) = ["white", "red", "teal", "gray", "black"] ∧
        (byWeight NewPost.sample.keywords).map (·.word) = ["street", "fuji"] := by
  have hvalid : Submission.sample.validate = .ok .sample := by decide
  obtain ⟨hread, ⟨record, colors, keywords, -, -, -, hshown⟩, -⟩ :=
    inserted_reads_back .sample .sample hvalid 4 1 1
  obtain ⟨read, hrow, hpost⟩ := hread _ (hshown 1)
  exact ⟨hvalid, _, read, hshown 1, hrow, hpost, by cbv, by cbv⟩

end FilmCatalog
