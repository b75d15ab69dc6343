import FilmCatalog.Proofs.Listing.Answer

/-!
# Which posts a listing selects

A filter describes the posts it is for, field by field (`PostFilter.Matches`).
The listing query of a filter selects these and no others: `FROM` joins every
post that has all wanted colors and keywords once, with all its children, and
`WHERE` keeps those for which the other fields hold.

The place of a cursor key is what a cursor is compared by. In the random order
it is the remainder modulo the seed and then the time, the latest first.

Key definitions: `PostFilter.Seeded`, `PostFilter.keyPlace`, `PostFilter.Matches`.
Key theorems: `joined_eq`, `keeps_eq`, `ListingQuery.source_eq`, `selected_iff_matches`.
-/

namespace FilmCatalog

open Sql

/-! ## Joins -/

/-- The posts of a color predicate: those whose rows of that name cover more
than its share together. -/
theorem mem_colorSelect_iff (D : Dialect) (t : Tables) (c : ColorPredicate) (id : Int) :
    id ∈ c.select.ids D t ↔
      (∃ r ∈ t.colorsOf id, r.html = c.name) ∧
        c.minPercent.below
          (D.sum (((t.colorsOf id).filter fun r => r.html = c.name).map (·.percent))) = true := by
  rw [IdSelect.mem_ids_iff, ← Tables.children_colors]
  simp only [ColorPredicate.select, Option.mem_some_iff, forall_eq']
  rfl

theorem mem_wordSelect_iff (D : Dialect) (t : Tables) (word : String) (id : Int) :
    id ∈ (wordSelect word).ids D t ↔ ∃ k ∈ t.keywordsOf id, k.word = word := by
  rw [IdSelect.mem_ids_iff, ← Tables.children_keywords]
  simp only [wordSelect, Option.not_mem_none, false_implies, implies_true, and_true]
  rfl

namespace ListingQuery

variable (D : Dialect) (t : Tables) (q : ListingQuery)

/-- Whether a post has all wanted colors and keywords. -/
def ChildrenFound (id : Int) : Prop :=
  (∀ c ∈ q.colors, id ∈ c.select.ids D t) ∧ ∀ w ∈ q.keywords, id ∈ (wordSelect w).ids D t

instance (id : Int) : Decidable (q.ChildrenFound D t id) := by
  unfold ChildrenFound
  infer_instance

theorem colorPartners_eq (id : Int) :
    q.colorItem.partners D t id =
      if ∀ c ∈ q.colors, id ∈ c.select.ids D t then [orNull (t.colorsOf id)] else [] := by
  rw [Join.partners_ofSets D t (j := q.colorItem) List.isEmpty_map.symm rfl]
  simp only [List.forall_mem_map]
  rfl

theorem keywordPartners_eq (id : Int) :
    q.keywordItem.partners D t id =
      if ∀ w ∈ q.keywords, id ∈ (wordSelect w).ids D t then [orNull (t.keywordsOf id)] else [] := by
  rw [Join.partners_ofSets D t (j := q.keywordItem) List.isEmpty_map.symm rfl]
  simp only [List.forall_mem_map]
  rfl

/-- `FROM` joins the posts that have all wanted children, each once and with
all its children. -/
theorem joined_eq :
    q.select.joined D t = (t.posts.filter fun r => q.ChildrenFound D t r.id).map t.joinedRow := by
  show (t.posts.flatMap fun p => (q.colorItem.partners D t p.id).flatMap fun cs =>
    (q.keywordItem.partners D t p.id).map fun ks => (⟨p, cs, ks⟩ : JoinedRow)) = _
  induction t.posts with
  | nil => rfl
  | cons r rest ih =>
    rw [List.flatMap_cons, ih, List.filter_cons, colorPartners_eq, keywordPartners_eq]
    by_cases h : q.ChildrenFound D t r.id
    · rw [if_pos h.1, if_pos h.2, if_pos (decide_eq_true h)]
      rfl
    · have hnone : ¬decide (q.ChildrenFound D t r.id) = true := by simpa using h
      rw [if_neg hnone]
      by_cases hc : ∀ c ∈ q.colors, r.id ∈ c.select.ids D t
      · rw [if_pos hc, if_neg fun hw => h ⟨hc, hw⟩]
        rfl
      · rw [if_neg hc]
        rfl

end ListingQuery

/-! ## Conditions -/

/-- The proportion of the raw image of a row. -/
def Sql.PostRecord.ratio (r : PostRecord) : Double :=
  (Double.ofInt r.width).div (Double.ofInt r.height)

/-- The length of a side of a row. -/
def Side.length (r : PostRecord) : Side → Int
  | .width => r.width
  | .height => r.height

/-- The flag of a row. -/
def Flag.value (r : PostRecord) : Flag → Bool
  | .nsfw => r.nsfw
  | .grayscale => r.grayscale
  | .sprocket => r.sprocket

/-- Whether a value lies on the right side of a range end. -/
def RangeEnd.Within (bound x : Int) : RangeEnd → Prop
  | .atLeast => bound ≤ x
  | .atMost => x ≤ bound

namespace Condition

/-- What a condition asks of a row. -/
def Holds (D : Dialect) (r : PostRecord) : Condition → Prop
  | .timeBefore cursor => r.time < cursor
  | .scoreBefore cursor => r.score < cursor
  | .shuffledAfter seed cursor =>
    cursor.tmod seed < r.time.tmod seed ∨
      r.time.tmod seed = cursor.tmod seed ∧ r.time < cursor
  | .flagIs flag b => flag.value r = b
  | .idAmong ids => r.id ∈ ids
  | .titleLike pattern => iLike D.toLowering pattern r.title = some true
  | .authorIs author => r.author = author
  | .sideWithin side limit bound => limit.Within bound (side.length r)
  | .ratioWithin limit bound => r.height ≠ 0 ∧ limit.Within bound.standing r.ratio.standing

/-- Whether a condition has a value for every row: its seed is not zero, and
its pattern is not refused. -/
def Answerable (D : Dialect) : Condition → Prop
  | .shuffledAfter seed _ => seed ≠ 0
  | .titleLike pattern => ∀ title, ∃ b, iLike D.toLowering pattern title = some b
  | _ => True

instance (bound x : Int) : (limit : RangeEnd) → Decidable (limit.Within bound x)
  | .atLeast => inferInstanceAs (Decidable (bound ≤ x))
  | .atMost => inferInstanceAs (Decidable (x ≤ bound))

instance (D : Dialect) (r : PostRecord) : (c : Condition) → Decidable (c.Holds D r)
  | .timeBefore _ => inferInstanceAs (Decidable (_ < _))
  | .scoreBefore _ => inferInstanceAs (Decidable (_ < _))
  | .shuffledAfter _ _ => inferInstanceAs (Decidable (_ ∨ _))
  | .flagIs _ _ => inferInstanceAs (Decidable (_ = _))
  | .idAmong _ => inferInstanceAs (Decidable (_ ∈ _))
  | .titleLike _ => inferInstanceAs (Decidable (_ = _))
  | .authorIs _ => inferInstanceAs (Decidable (_ = _))
  | .sideWithin _ _ _ => inferInstanceAs (Decidable (RangeEnd.Within _ _ _))
  | .ratioWithin _ _ => inferInstanceAs (Decidable (_ ∧ RangeEnd.Within _ _ _))

theorem holds_range_iff (limit : RangeEnd) (bound x : Int) :
    (Comparison.range limit).holds x bound = true ↔ limit.Within bound x := by
  cases limit <;> simp [Comparison.holds, RangeEnd.Within]

theorem value_mod {seed : Int} (h : seed ≠ 0) (r : PostRecord) (a : IntTerm) {n : Int}
    (ha : a.value r = .ok n) : (IntTerm.mod a (.bound seed)).value r = .ok (n.tmod seed) := by
  simp [IntTerm.value, ha, h]

theorem value_compare (D : Dialect) {r : PostRecord} {a b : IntTerm} {x y : Int}
    (ha : a.value r = .ok x) (hb : b.value r = .ok y) (c : Comparison) :
    (Formula.compare a c b).value D r = .ok (some (c.holds x y)) := by
  simp [Formula.value, ha, hb]

/-- The disjunction of the random order is true for the rows after the cursor.
None of its parts is ever null. -/
theorem value_shuffledAfter {seed : Int} (h : seed ≠ 0) (D : Dialect) (r : PostRecord)
    (cursor : Int) :
    ∃ b, (shuffledAfter seed cursor).formula.value D r = .ok (some b) ∧
      (b = true ↔ (shuffledAfter seed cursor).Holds D r) := by
  have hb : (IntTerm.mod (.column .time) (.bound seed)).value r = .ok (r.time.tmod seed) :=
    value_mod h r _ rfl
  have hc : (IntTerm.mod (.bound cursor) (.bound seed)).value r = .ok (cursor.tmod seed) :=
    value_mod h r _ rfl
  have ht : (IntTerm.column .time).value r = .ok r.time := rfl
  refine ⟨Comparison.greater.holds (r.time.tmod seed) (cursor.tmod seed) ||
    (Comparison.equal.holds (r.time.tmod seed) (cursor.tmod seed) &&
      Comparison.less.holds r.time cursor), ?_, ?_⟩
  · rw [formula, Formula.value, value_compare D hb hc, Formula.value, value_compare D hb hc,
      value_compare D ht rfl]
    simp
  · simp [Holds, Comparison.holds]

/-- A condition that has values is true for the rows that it holds for. -/
theorem value_formula (D : Dialect) (r : PostRecord) (c : Condition) (h : c.Answerable D) :
    ∃ v, c.formula.value D r = .ok v ∧ (v = some true ↔ c.Holds D r) := by
  cases c with
  | timeBefore cursor =>
    have hx : (IntTerm.column .time).value r = .ok r.time := rfl
    exact ⟨_, value_compare D hx rfl .less, by simp [Holds, Comparison.holds]⟩
  | scoreBefore cursor =>
    have hx : (IntTerm.column .score).value r = .ok r.score := rfl
    exact ⟨_, value_compare D hx rfl .less, by simp [Holds, Comparison.holds]⟩
  | shuffledAfter seed cursor =>
    obtain ⟨b, hb, hiff⟩ := value_shuffledAfter h D r cursor
    exact ⟨some b, hb, by simpa using hiff⟩
  | flagIs flag b => cases flag <;> exact ⟨_, rfl, by simp [Holds, Flag.value]⟩
  | idAmong ids => exact ⟨_, rfl, by simp [Holds]⟩
  | titleLike pattern =>
    obtain ⟨b, hb⟩ := h r.title
    exact ⟨some b, by simp [formula, Formula.value, hb], by simp [Holds, hb]⟩
  | authorIs author => exact ⟨_, rfl, by simp [Holds]⟩
  | sideWithin side limit bound =>
    cases side <;> exact ⟨_, rfl, by simp [Holds, holds_range_iff, Side.length, IntColumn.value]⟩
  | ratioWithin limit bound =>
    by_cases hz : r.height = 0
    · refine ⟨none, ?_, by simp [Holds, hz]⟩
      simp [formula, Formula.value, nullIf, IntColumn.value, hz]
    · refine ⟨some ((Comparison.range limit).holds r.ratio.standing bound.standing), ?_, ?_⟩
      · simp [formula, Formula.value, nullIf, quotient, IntColumn.value, hz, PostRecord.ratio]
      · simp [Holds, hz, holds_range_iff]

end Condition

/-- `WHERE` keeps the rows for which every condition holds. -/
theorem keeps_eq (D : Dialect) (q : ListingQuery) (h : ∀ c ∈ q.conditions, c.Answerable D)
    (r : PostRecord) :
    ∃ b, q.select.keeps D r = .ok b ∧ (b = true ↔ ∀ c ∈ q.conditions, c.Holds D r) := by
  have hvalues : ∀ cs : List Condition, (∀ c ∈ cs, c.Answerable D) →
      ∃ vs, (cs.map Condition.formula).mapM (fun f => f.value D r) = .ok vs ∧
        (vs.all (· == some true) = true ↔ ∀ c ∈ cs, c.Holds D r) := by
    intro cs hcs
    induction cs with
    | nil => exact ⟨[], rfl, by simp⟩
    | cons c cs ih =>
      obtain ⟨v, hv, hc⟩ := c.value_formula D r (hcs c List.mem_cons_self)
      obtain ⟨vs, hvs, hrest⟩ := ih fun x hx => hcs x (List.mem_cons_of_mem _ hx)
      refine ⟨v :: vs, by rw [List.map_cons, List.mapM_cons, hv, hvs]; rfl, ?_⟩
      rw [List.all_cons, Bool.and_eq_true, beq_iff_eq, hc, hrest, List.forall_mem_cons]
  obtain ⟨vs, hvs, hiff⟩ := hvalues q.conditions h
  exact ⟨_, by rw [Select.keeps, ListingQuery.select, hvs]; rfl, hiff⟩

/-! ## Filters -/

/-- Whether a value lies in a range, compared by `le`. -/
structure Bounds.Contains {α : Type} (le : α → α → Prop) (b : Bounds α) (x : α) : Prop where
  above : ∀ low ∈ b.min, le low x
  below : ∀ high ∈ b.max, le x high

namespace PostFilter

/-- Whether a filter of the random order has a positive seed. -/
def Seeded (f : PostFilter) : Prop := f.sort = .random → ∃ s, f.seed = some s ∧ 0 < s

/-- Where a cursor key stands in the order of a filter. -/
def keyPlace (f : PostFilter) (key : Int) : List Int :=
  match f.sort with
  | .time => [-key]
  | .score => [-key]
  | .random => [key.tmod f.seedOrFirst, -key]

/-- Whether a post is one that a filter is for. What the filter leaves open
asks nothing. -/
structure Matches (D : Dialect) (t : Tables) (f : PostFilter) (r : PostRecord) : Prop where
  nsfw : ∀ b ∈ f.nsfw, r.nsfw = b
  grayscale : ∀ b ∈ f.grayscale, r.grayscale = b
  sprocket : ∀ b ∈ f.sprocket, r.sprocket = b
  ids : ∀ ids ∈ f.ids, r.id ∈ ids
  title : ∀ wanted ∈ f.title, D.text wanted <:+: D.text r.title
  author : ∀ author ∈ f.author, r.author = author
  width : f.width.Contains (· ≤ ·) r.width
  height : f.height.Contains (· ≤ ·) r.height
  ratio : f.aspectRatio ≠ .unbounded →
    r.height ≠ 0 ∧ f.aspectRatio.Contains (·.standing ≤ ·.standing) r.ratio
  /-- The rows of each wanted color cover more than its own share together. -/
  colors : ∀ c ∈ f.colors, (∃ row ∈ t.colorsOf r.id, row.html = c.name) ∧
    c.minPercent.below
      (D.sum (((t.colorsOf r.id).filter fun row => row.html = c.name).map (·.percent))) = true
  keywords : ∀ word ∈ f.keywords, ∃ k ∈ t.keywordsOf r.id, k.word = word
  cursor : ∀ cursor ∈ f.cursor, f.keyPlace cursor < f.keyPlace (f.cursorKey (t.post r))

theorem forall_mem_toList_map {α β : Type} {o : Option α} {g : α → β} {P : β → Prop} :
    (∀ b ∈ (o.map g).toList, P b) ↔ ∀ a ∈ o, P (g a) := by
  cases o <;> simp

theorem holds_cursorCondition_iff (D : Dialect) (t : Tables) (f : PostFilter) (r : PostRecord)
    (cursor : Int) :
    (f.cursorCondition cursor).Holds D r ↔
      f.keyPlace cursor < f.keyPlace (f.cursorKey (t.post r)) := by
  unfold cursorCondition keyPlace cursorKey
  cases f.sort <;> simp [Condition.Holds, List.cons_lt_cons_iff, Tables.post, eq_comm]

/-- A proportion exists where the height is not zero; both ends of a range ask for one. -/
theorem ratio_ends_iff (b : Bounds Double) (r : PostRecord) :
    (b ≠ .unbounded → r.height ≠ 0 ∧ b.Contains (·.standing ≤ ·.standing) r.ratio) ↔
      (∀ low ∈ b.min, r.height ≠ 0 ∧ low.standing ≤ r.ratio.standing) ∧
        ∀ high ∈ b.max, r.height ≠ 0 ∧ r.ratio.standing ≤ high.standing := by
  obtain ⟨low, high⟩ := b
  constructor
  · intro h
    refine ⟨fun x hx => ?_, fun x hx => ?_⟩
    · obtain ⟨hz, hc⟩ := h (by rintro ⟨⟩; simp at hx)
      exact ⟨hz, hc.above x hx⟩
    · obtain ⟨hz, hc⟩ := h (by rintro ⟨⟩; simp at hx)
      exact ⟨hz, hc.below x hx⟩
  · rintro ⟨hlow, hhigh⟩ hne
    refine ⟨?_, fun x hx => (hlow x hx).2, fun x hx => (hhigh x hx).2⟩
    cases low with
    | some x => exact (hlow x rfl).1
    | none =>
      cases high with
      | some x => exact (hhigh x rfl).1
      | none => exact absurd rfl hne

/-- A post matches if it has the wanted children and every condition of the
filter holds for it. -/
theorem matches_iff (D : Dialect) (t : Tables) (f : PostFilter) (r : PostRecord) :
    f.Matches D t r ↔
      (ListingQuery.ofFilter f).ChildrenFound D t r.id ∧ ∀ c ∈ f.conditions, c.Holds D r := by
  simp only [ListingQuery.ChildrenFound, ListingQuery.ofFilter, mem_colorSelect_iff,
    mem_wordSelect_iff]
  simp only [conditions, List.forall_mem_append, forall_mem_toList_map,
    holds_cursorCondition_iff D t, and_assoc]
  simp only [Condition.Holds, RangeEnd.Within, Flag.value, Side.length, iLike_likePattern,
    Option.some.injEq, decide_eq_true_eq]
  constructor
  · rintro ⟨hn, hg, hs, hi, ht, ha, hw, hh, hr, hc, hk, hcur⟩
    obtain ⟨hlow, hhigh⟩ := (ratio_ends_iff _ r).1 hr
    exact ⟨hc, hk, hcur, hn, hg, hs, hi, ht, ha, hw.above, hw.below, hh.above, hh.below, hlow,
      hhigh⟩
  · rintro ⟨hc, hk, hcur, hn, hg, hs, hi, ht, ha, hwl, hwh, hhl, hhh, hlow, hhigh⟩
    exact ⟨hn, hg, hs, hi, ht, ha, ⟨hwl, hwh⟩, ⟨hhl, hhh⟩, (ratio_ends_iff _ r).2 ⟨hlow, hhigh⟩,
      hc, hk, hcur⟩

instance (D : Dialect) (t : Tables) (f : PostFilter) (r : PostRecord) :
    Decidable (f.Matches D t r) :=
  decidable_of_iff' _ (matches_iff D t f r)

theorem seedOrFirst_pos {f : PostFilter} (h : f.Seeded) (hs : f.sort = .random) :
    0 < f.seedOrFirst := by
  obtain ⟨s, hseed, hpos⟩ := h hs
  rwa [seedOrFirst, hseed, Option.getD_some]

/-- Every condition of a filter with a positive seed has a value. -/
theorem answerable_conditions (D : Dialect) {f : PostFilter} (h : f.Seeded) :
    ∀ c ∈ f.conditions, c.Answerable D := by
  simp only [conditions, List.forall_mem_append, forall_mem_toList_map]
  simp only [Condition.Answerable, implies_true, and_true, iLike_likePattern]
  refine ⟨fun cursor _ => ?_, fun wanted _ title => ⟨_, rfl⟩⟩
  unfold cursorCondition
  cases hs : f.sort with
  | time => trivial
  | score => trivial
  | random => exact (seedOrFirst_pos h hs).ne'

end PostFilter

/-- `FROM` and `WHERE` of a filter give the matching posts, each once and with
all its children, in the order in which they are stored. -/
theorem ListingQuery.source_eq (D : Dialect) (t : Tables) {f : PostFilter} (h : f.Seeded) :
    (ListingQuery.ofFilter f).source D t =
      .ok ((t.posts.filter fun r => f.Matches D t r).map t.joinedRow) := by
  have hkeeps : ∀ j ∈ (ListingQuery.ofFilter f).select.joined D t,
      ∃ b, (ListingQuery.ofFilter f).select.keeps D j.post = .ok b ∧
        (b = true ↔ ∀ c ∈ f.conditions, c.Holds D j.post) :=
    fun j _ => keeps_eq D _ (f.answerable_conditions D h) j.post
  rw [ListingQuery.source, Select.source, selectRows_eq _ hkeeps, ListingQuery.joined_eq,
    List.filter_map, List.filter_filter]
  refine congrArg (fun rows => Except.ok (List.map t.joinedRow rows)) ?_
  refine List.filter_congr fun r _ => ?_
  rw [Function.comp_apply, ← Bool.decide_and, decide_eq_decide, f.matches_iff, and_comm]
  rfl

/-- The statement of a filter with a positive seed fails for no tables. The rows
that it selects are the posts that match the filter. They are what its text
means: the statement that is sent, with its sets of posts, its joins and its
conditions, is the one whose rows these are, written down. -/
theorem selected_iff_matches (D : Dialect) (t : Tables) (f : PostFilter) (h : f.Seeded) :
    (ListingQuery.ofFilter f).select.Writes (ListingQuery.ofFilter f) ∧
    ∃ rows, (ListingQuery.ofFilter f).select.source D t = .ok rows ∧
      (∀ r ∈ t.posts, (∃ j ∈ rows, j.post = r) ↔ f.Matches D t r) ∧
      rows.map (·.post) = t.posts.filter (fun r => f.Matches D t r) := by
  have hrows : ((t.posts.filter fun r => f.Matches D t r).map t.joinedRow).map (·.post) =
      t.posts.filter fun r => f.Matches D t r := by
    rw [List.map_map]
    exact List.map_id _
  refine ⟨writes_select _, _, ListingQuery.source_eq D t h,
    fun r hr => ?_, hrows⟩
  constructor
  · rintro ⟨j, hj, rfl⟩
    have hmem : j.post ∈ t.posts.filter fun r => f.Matches D t r :=
      hrows ▸ List.mem_map_of_mem hj
    simpa using (List.mem_filter.1 hmem).2
  · intro hm
    exact ⟨t.joinedRow r, List.mem_map_of_mem (List.mem_filter.2 ⟨hr, decide_eq_true hm⟩), rfl⟩

/-- A row without texts, its image three by two. -/
def Sql.PostRecord.bare (id score time : Int) : PostRecord where
  id := id
  url := ""
  title := ""
  author := ""
  permalink := ""
  score := score
  nsfw := false
  grayscale := false
  sprocket := false
  time := time
  width := 3
  height := 2
  lowUrl := ""
  lowWidth := 3
  lowHeight := 2
  mediumUrl := ""
  mediumWidth := 3
  mediumHeight := 2
  highUrl := ""
  highWidth := 3
  highHeight := 2

/-- Three posts: one has a keyword and two rows of one color, one has no
children and no height, and one has a larger row of that color alone. -/
def Sql.Tables.sample : Tables where
  posts := [{ PostRecord.bare 1 5 (-9) with title := "Roll 100%" },
    { PostRecord.bare 2 5 4 with height := 0 },
    { PostRecord.bare 3 8 30 with title := "a roll" }]
  colors := [⟨1, 1, "#ffffff", "white", "white", Double.ofInt 30⟩,
    ⟨2, 3, "#ffffff", "white", "white", Double.ofInt 50⟩,
    ⟨3, 1, "#fffafa", "snow", "white", Double.ofInt 25⟩]
  keywords := [⟨1, 1, "fuji", Double.ofInt 1⟩]

/-- Asks for one color twice, with different shares, behind a cursor whose
remainder is negative. -/
def PostFilter.sample : PostFilter :=
  { everything with
    sort := .random, seed := some 7, cursor := some (-3), title := some "rOLL"
    colors := [⟨"white", Double.ofInt 20⟩, ⟨"white", Double.ofInt 50⟩]
    keywords := ["fuji"]
    aspectRatio := ⟨some (Double.ofInt 1), none⟩ }

theorem selected_of_sample :
    PostFilter.sample.Seeded ∧ ∃ rows,
      (ListingQuery.ofFilter .sample).select.source .plain .sample = .ok rows ∧
        (rows.map (·.post)).map (·.id) = [1] := by
  have hs : PostFilter.sample.Seeded := fun _ => ⟨7, rfl, by decide⟩
  obtain ⟨-, rows, hrows, -, hposts⟩ := selected_iff_matches .plain .sample .sample hs
  refine ⟨hs, rows, hrows, ?_⟩
  rw [hposts]
  decide +kernel

end FilmCatalog
