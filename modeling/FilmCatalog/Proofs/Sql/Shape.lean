import FilmCatalog.Proofs.Sql.Placeholder

/-!
# The text of a listing

Two runs of the compiler are compared: filters of one shape, that is with the
same order, the same limit, the same fields and as many colors and keywords,
have statements with the very same text. What the fields hold shows only in the
arguments, and these have the same types place by place.

Both follow from fragments that are alike, character by character and value
type by value type: writing tokens never looks at a value.

Key definitions: `Token.Like`, `Fragment.Like`, `PostFilter.SameShape`.
Key theorems: `Token.written_of_like`, `ListingQuery.Like.fragment`, `text_of_shape`.
-/

namespace FilmCatalog

/-- Whether two values have one type in the database. -/
def SqlValue.SameType (v w : SqlValue) : Prop := v.typeName = w.typeName

namespace Token

/-- Whether two tokens are the same character, or values of one type. -/
inductive Like : Token → Token → Prop where
  | char (c : Char) : Like (.char c) (.char c)
  | bound {v w : SqlValue} (h : v.SameType w) : Like (.bound v) (.bound w)

theorem like_refl (ts : List Token) : List.Forall₂ Like ts ts :=
  List.forall₂_same.2 fun t _ => by
    cases t with
    | char c => exact .char c
    | bound v => exact .bound rfl

variable {ts us : List Token}

/-- Tokens that are alike are written as the same text. -/
theorem written_of_like (h : List.Forall₂ Like ts us) (n : ℕ) : written n ts = written n us := by
  induction h generalizing n with
  | nil => rfl
  | cons ht _ ih =>
    cases ht with
    | char c => rw [written, written, ih n]
    | bound hv => rw [written, written, ih (n + 1)]

theorem values_of_like (h : List.Forall₂ Like ts us) :
    List.Forall₂ SqlValue.SameType (values ts) (values us) := by
  induction h with
  | nil => exact .nil
  | cons ht _ ih =>
    cases ht with
    | char c => exact ih
    | bound hv => exact .cons hv ih

end Token

namespace Fragment

/-- Whether two fragments differ in the values alone, and not in their types. -/
def Like (f g : Fragment) : Prop := List.Forall₂ Token.Like f.tokens g.tokens

variable {f g f' g' : Fragment}

theorem Like.refl (f : Fragment) : f.Like f := Token.like_refl _

theorem Like.append (h : f.Like g) (h' : f'.Like g') : (f ++ f').Like (g ++ g') := by
  unfold Like
  rw [tokens_append, tokens_append]
  exact List.rel_append h h'

theorem like_value {v w : SqlValue} (h : v.SameType w) : (value v).Like (value w) :=
  .cons (.bound h) .nil

theorem Like.joined (separator : String) {fs gs : List Fragment} (h : List.Forall₂ Like fs gs) :
    (joined separator fs).Like (joined separator gs) := by
  cases h with
  | nil => exact .refl _
  | cons h hs =>
    unfold Like
    rw [tokens_joined, tokens_joined]
    refine List.rel_append h (List.rel_flatMap hs fun f g hfg => ?_)
    exact List.rel_append (Like.refl (text separator)) hfg

/-- Statements of fragments that are alike have one text, and arguments of the same types. -/
theorem Like.statement (h : f.Like g) :
    f.toStatement.sql = g.toStatement.sql ∧
      List.Forall₂ SqlValue.SameType f.toStatement.args g.toStatement.args := by
  obtain ⟨hsql, hargs⟩ := f.writeOn_eq ⟨"", []⟩
  obtain ⟨hsql', hargs'⟩ := g.writeOn_eq ⟨"", []⟩
  constructor
  · apply String.toList_injective
    rw [toStatement, toStatement, hsql, hsql', Token.written_of_like h]
  · rw [toStatement, toStatement, hargs, hargs']
    exact Token.values_of_like h

end Fragment

open Fragment

/-! ## Parts of a listing -/

/-- Whether two conditions differ in their values alone. -/
inductive Condition.SameKind : Condition → Condition → Prop where
  | timeBefore (a b : Int) : SameKind (.timeBefore a) (.timeBefore b)
  | scoreBefore (a b : Int) : SameKind (.scoreBefore a) (.scoreBefore b)
  | shuffledAfter (s a t b : Int) : SameKind (.shuffledAfter s a) (.shuffledAfter t b)
  | flagIs (flag : Flag) (a b : Bool) : SameKind (.flagIs flag a) (.flagIs flag b)
  | idAmong (a b : List Int) : SameKind (.idAmong a) (.idAmong b)
  | titleLike (a b : String) : SameKind (.titleLike a) (.titleLike b)
  | authorIs (a b : String) : SameKind (.authorIs a) (.authorIs b)
  | sideWithin (side : Side) (limit : RangeEnd) (a b : Int) :
      SameKind (.sideWithin side limit a) (.sideWithin side limit b)
  | ratioWithin (limit : RangeEnd) (a b : Double) :
      SameKind (.ratioWithin limit a) (.ratioWithin limit b)

/-- Conditions of one kind have the same text. -/
theorem Condition.SameKind.like {c d : Condition} (h : c.SameKind d) :
    c.fragment.Like d.fragment := by
  have htext (s : String) : (text s).Like (text s) := .refl _
  cases h with
  | timeBefore a b => exact (htext _).append (like_value rfl)
  | scoreBefore a b => exact (htext _).append (like_value rfl)
  | shuffledAfter s a t b =>
    have hseed : (value (.int8 s)).Like (value (.int8 t)) := like_value rfl
    have hcursor : (value (.int8 a)).Like (value (.int8 b)) := like_value rfl
    have hlater := ((((htext "(MOD(p.time, ").append hseed).append (htext ") > MOD(")).append
      hcursor).append (htext ", ") |>.append hseed
    have hsame := ((((hlater.append (htext ") OR (MOD(p.time, ")).append hseed).append
      (htext ") = MOD(")).append hcursor).append (htext ", ") |>.append hseed
    exact ((hsame.append (htext ") AND p.time < ")).append hcursor).append (htext "))")
  | flagIs flag a b => exact (htext _).append (like_value rfl)
  | idAmong a b =>
    have hids : (value (.ints a)).Like (value (.ints b)) := like_value rfl
    exact ((htext _).append hids).append (htext _)
  | titleLike a b => exact (htext _).append (like_value rfl)
  | authorIs a b => exact (htext _).append (like_value rfl)
  | sideWithin side limit a b => exact (htext _).append (like_value rfl)
  | ratioWithin limit a b => exact (htext _).append (like_value rfl)

theorem ColorPredicate.like_fragment (c d : ColorPredicate) : c.fragment.Like d.fragment := by
  have hname : (value (.text c.name)).Like (value (.text d.name)) := like_value rfl
  have hpercent : (value (.float8 c.minPercent)).Like (value (.float8 d.minPercent)) :=
    like_value rfl
  exact ((((Fragment.Like.refl _).append hname).append (.refl _)).append hpercent).append (.refl _)

theorem like_wordFragment (a b : String) : (wordFragment a).Like (wordFragment b) := by
  have hword : (value (.text a)).Like (value (.text b)) := like_value rfl
  exact ((Fragment.Like.refl _).append hword).append (.refl _)

theorem RowOrder.like_shuffled (s t : Int) :
    (RowOrder.shuffled s).fragment.Like (RowOrder.shuffled t).fragment := by
  have hseed : (value (.int8 s)).Like (value (.int8 t)) := like_value rfl
  exact ((Fragment.Like.refl _).append hseed).append (.refl _)

theorem Fragment.Like.gathered (table columns : String) {among among' : Option Fragment}
    (h : Option.Rel Fragment.Like among among') :
    (gathered table columns among).Like (FilmCatalog.gathered table columns among') := by
  cases h with
  | none => exact .refl _
  | some h =>
    have hamong := ((Fragment.Like.refl (text " WHERE post_id IN (")).append h).append
      (.refl (text ")"))
    exact ((Fragment.Like.refl _).append hamong).append (.refl _)

theorem like_intersection? {fs gs : List Fragment} (h : List.Forall₂ Fragment.Like fs gs) :
    Option.Rel Fragment.Like (intersection? fs) (intersection? gs) := by
  unfold intersection?
  cases h with
  | nil => exact .none
  | cons h hs => exact .some (.joined _ (.cons h hs))

/-! ## Listings -/

namespace ListingQuery

/-- Whether two listings differ in values alone. -/
structure Like (q r : ListingQuery) : Prop where
  colors : q.colors.length = r.colors.length
  keywords : q.keywords.length = r.keywords.length
  conditions : List.Forall₂ Condition.SameKind q.conditions r.conditions
  order : q.order.fragment.Like r.order.fragment
  limit : q.limit = r.limit

variable {q r : ListingQuery}

theorem isEmpty_of_length {α β : Type} {xs : List α} {ys : List β} (h : xs.length = ys.length) :
    xs.isEmpty = ys.isEmpty := by
  rw [Bool.eq_iff_iff, List.isEmpty_iff_length_eq_zero, List.isEmpty_iff_length_eq_zero, h]

theorem ofWanted_of_length {α : Type} {xs ys : List α} (h : xs.length = ys.length) :
    JoinKind.ofWanted xs = JoinKind.ofWanted ys := by
  rw [JoinKind.ofWanted, JoinKind.ofWanted, isEmpty_of_length h]

/-- Lists of one length whose members all give fragments that are alike. -/
theorem forall₂_fragments {α : Type} {write : α → Fragment}
    (hwrite : ∀ a b, (write a).Like (write b)) {xs ys : List α} (h : xs.length = ys.length) :
    List.Forall₂ Fragment.Like (xs.map write) (ys.map write) := by
  rw [List.forall₂_map_left_iff, List.forall₂_map_right_iff]
  exact List.forall₂_of_length_eq_of_get h fun _ _ _ => hwrite _ _

theorem Like.colorFilter (h : q.Like r) : Option.Rel Fragment.Like q.colorFilter r.colorFilter :=
  like_intersection? (forall₂_fragments ColorPredicate.like_fragment h.colors)

theorem Like.keywordFilter (h : q.Like r) :
    Option.Rel Fragment.Like q.keywordFilter r.keywordFilter :=
  like_intersection? (forall₂_fragments like_wordFragment h.keywords)

theorem Like.whereClause (h : q.Like r) :
    Option.Rel Fragment.Like q.whereClause r.whereClause := by
  have hfragments : List.Forall₂ Fragment.Like (q.conditions.map Condition.fragment)
      (r.conditions.map Condition.fragment) := by
    rw [List.forall₂_map_left_iff, List.forall₂_map_right_iff]
    exact h.conditions.imp fun _ _ hc => hc.like
  unfold ListingQuery.whereClause
  rw [isEmpty_of_length h.conditions.length_eq]
  split
  · exact .none
  · exact .some (.joined _ hfragments)

/-- Listings that differ in values alone are written alike. -/
theorem Like.fragment (h : q.Like r) : q.fragment.Like r.fragment := by
  have htext (s : String) : (text s).Like (text s) := .refl _
  have hcolors : (gathered "colors" colorColumns q.colorFilter).Like
      (gathered "colors" colorColumns r.colorFilter) := .gathered _ _ h.colorFilter
  have hkeywords : (gathered "keywords" keywordColumns q.keywordFilter).Like
      (gathered "keywords" keywordColumns r.keywordFilter) := .gathered _ _ h.keywordFilter
  have hcolorJoin : q.colorJoin = r.colorJoin := ofWanted_of_length h.colors
  have hkeywordJoin : q.keywordJoin = r.keywordJoin := ofWanted_of_length h.keywords
  rw [ListingQuery.fragment, ListingQuery.fragment, hcolorJoin, hkeywordJoin]
  refine (((((((htext _).append hcolors).append (htext _)).append hkeywords).append
    (htext _)).append ?_).append (htext _)).append h.order
  have hrel := h.whereClause
  generalize q.whereClause = c, r.whereClause = c' at hrel
  cases hrel with
  | none => exact .refl _
  | some hc => exact (htext _).append hc

/-- The texts of listings that differ in values alone are the same. -/
theorem Like.statement (h : q.Like r) :
    q.statement.sql = r.statement.sql ∧
      List.Forall₂ SqlValue.SameType q.statement.args r.statement.args := by
  obtain ⟨hsql, hargs⟩ := h.fragment.statement
  have hlimit : q.limitSql = r.limitSql := by rw [limitSql, limitSql, h.limit]
  refine ⟨?_, hargs⟩
  rw [ListingQuery.statement, ListingQuery.statement, hlimit]
  exact congrArg (· ++ r.limitSql) hsql

end ListingQuery

/-! ## Filters -/

namespace PostFilter

/-- Whether two filters have the same order, the same limit, the same fields and
as many colors and keywords. -/
structure SameShape (f g : PostFilter) : Prop where
  sort : f.sort = g.sort
  limit : f.limit = g.limit
  cursor : f.cursor.isSome = g.cursor.isSome
  nsfw : f.nsfw.isSome = g.nsfw.isSome
  grayscale : f.grayscale.isSome = g.grayscale.isSome
  sprocket : f.sprocket.isSome = g.sprocket.isSome
  ids : f.ids.isSome = g.ids.isSome
  title : f.title.isSome = g.title.isSome
  author : f.author.isSome = g.author.isSome
  minWidth : f.width.min.isSome = g.width.min.isSome
  maxWidth : f.width.max.isSome = g.width.max.isSome
  minHeight : f.height.min.isSome = g.height.min.isSome
  maxHeight : f.height.max.isSome = g.height.max.isSome
  minRatio : f.aspectRatio.min.isSome = g.aspectRatio.min.isSome
  maxRatio : f.aspectRatio.max.isSome = g.aspectRatio.max.isSome
  colors : f.colors.length = g.colors.length
  keywords : f.keywords.length = g.keywords.length

/-- A field that both filters have or neither has gives conditions of one kind. -/
theorem sameKind_toList {α : Type} {c d : α → Condition} (hkind : ∀ a b, (c a).SameKind (d b))
    {x y : Option α} (h : x.isSome = y.isSome) :
    List.Forall₂ Condition.SameKind (x.map c).toList (y.map d).toList := by
  cases x <;> cases y <;> simp_all

variable {f g : PostFilter}

theorem SameShape.cursorCondition (h : f.SameShape g) (a b : Int) :
    (f.cursorCondition a).SameKind (g.cursorCondition b) := by
  unfold PostFilter.cursorCondition
  rw [h.sort]
  cases g.sort with
  | time => exact .timeBefore a b
  | score => exact .scoreBefore a b
  | random => exact .shuffledAfter _ a _ b

theorem SameShape.order (h : f.SameShape g) : f.rowOrder.fragment.Like g.rowOrder.fragment := by
  unfold rowOrder
  rw [h.sort]
  cases g.sort with
  | time => exact .refl _
  | score => exact .refl _
  | random => exact RowOrder.like_shuffled _ _

theorem SameShape.conditions (h : f.SameShape g) :
    List.Forall₂ Condition.SameKind f.conditions g.conditions := by
  unfold PostFilter.conditions
  refine List.rel_append (List.rel_append (List.rel_append (List.rel_append (List.rel_append
    (List.rel_append (List.rel_append (List.rel_append (List.rel_append (List.rel_append
    (List.rel_append (List.rel_append ?_ ?_) ?_) ?_) ?_) ?_) ?_) ?_) ?_) ?_) ?_) ?_) ?_
  · exact sameKind_toList h.cursorCondition h.cursor
  · exact sameKind_toList (.flagIs .nsfw) h.nsfw
  · exact sameKind_toList (.flagIs .grayscale) h.grayscale
  · exact sameKind_toList (.flagIs .sprocket) h.sprocket
  · exact sameKind_toList .idAmong h.ids
  · exact sameKind_toList (fun _ _ => .titleLike _ _) h.title
  · exact sameKind_toList .authorIs h.author
  · exact sameKind_toList (.sideWithin .width .atLeast) h.minWidth
  · exact sameKind_toList (.sideWithin .width .atMost) h.maxWidth
  · exact sameKind_toList (.sideWithin .height .atLeast) h.minHeight
  · exact sameKind_toList (.sideWithin .height .atMost) h.maxHeight
  · exact sameKind_toList (.ratioWithin .atLeast) h.minRatio
  · exact sameKind_toList (.ratioWithin .atMost) h.maxRatio

theorem SameShape.like (h : f.SameShape g) :
    (ListingQuery.ofFilter f).Like (ListingQuery.ofFilter g) where
  colors := h.colors
  keywords := h.keywords
  conditions := h.conditions
  order := h.order
  limit := h.limit

end PostFilter

/-- The listings of two filters of one shape have the very same SQL text, whatever
the filters hold; only their arguments differ, which are as many and have the
same types place by place. -/
theorem text_of_shape {f g : PostFilter} (h : f.SameShape g) :
    (ListingQuery.ofFilter f).statement.sql = (ListingQuery.ofFilter g).statement.sql ∧
      List.Forall₂ SqlValue.SameType (ListingQuery.ofFilter f).statement.args
        (ListingQuery.ofFilter g).statement.args :=
  h.like.statement

/-- A filter that asks for something of every kind. -/
def PostFilter.meek : PostFilter :=
  { PostFilter.everything with
    limit := some 20, sort := .random, cursor := some 5, seed := some 11, ids := some [1]
    title := some "dusk", author := some "u/alice", nsfw := some false
    colors := [⟨"black", .zero false⟩], keywords := ["film"]
    width := ⟨some 100, none⟩, aspectRatio := ⟨none, some (Double.ofInt 2)⟩ }

/-- A filter of the same shape that is full of SQL. -/
def PostFilter.hostile : PostFilter :=
  { PostFilter.everything with
    limit := some 20, sort := .random, cursor := some (-1), seed := some 263, ids := some []
    title := some "'; DROP TABLE posts; --", author := some "u/$1", nsfw := some true
    colors := [⟨") OR 1 = 1", Double.ofInt 7⟩], keywords := ["' UNION SELECT"]
    width := ⟨some 0, none⟩, aspectRatio := ⟨none, some (Double.ofInt (-3))⟩ }

theorem text_of_hostile :
    PostFilter.meek.SameShape PostFilter.hostile ∧
      (ListingQuery.ofFilter .meek).statement.sql = (ListingQuery.ofFilter .hostile).statement.sql ∧
      List.Forall₂ SqlValue.SameType (ListingQuery.ofFilter .meek).statement.args
        (ListingQuery.ofFilter .hostile).statement.args := by
  have h : PostFilter.meek.SameShape PostFilter.hostile := by constructor <;> rfl
  exact ⟨h, text_of_shape h⟩

end FilmCatalog
