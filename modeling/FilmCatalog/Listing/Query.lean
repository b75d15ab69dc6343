import FilmCatalog.Filter.Build

/-!
# Listing queries

A listing query says which post rows are wanted and in which order, before it
becomes SQL. Colors and keywords restrict the rows through their own tables:
a post must have every wanted color and every wanted word. The other
conditions are about the post row and must all hold.

A cursor is a strict bound on the sort key of its order. In the random order
posts go by the remainder of their time modulo the seed, then latest first,
and the cursor is a time.

Key definitions: `Condition`, `RowOrder`, `ListingQuery`, `ListingQuery.ofFilter`,
`likePattern`.
-/

namespace FilmCatalog

/-- The flags of a post row. -/
inductive Flag where
  | nsfw
  | grayscale
  | sprocket
  deriving DecidableEq, Repr

/-- The sides of the raw image. -/
inductive Side where
  | width
  | height
  deriving DecidableEq, Repr

/-- The ends of a range. -/
inductive RangeEnd where
  | atLeast
  | atMost
  deriving DecidableEq, Repr

/-- A condition on a post row. -/
inductive Condition where
  | timeBefore (cursor : Int)
  | scoreBefore (cursor : Int)
  /-- In a later remainder class than the cursor, or in its class and before it. -/
  | shuffledAfter (seed cursor : Int)
  | flagIs (flag : Flag) (value : Bool)
  | idAmong (ids : List Int)
  | titleLike (pattern : String)
  | authorIs (author : String)
  | sideWithin (side : Side) (limit : RangeEnd) (bound : Int)
  | ratioWithin (limit : RangeEnd) (bound : Double)
  deriving DecidableEq, Repr

/-- The orders of post rows. -/
inductive RowOrder where
  | latest
  | best
  | shuffled (seed : Int)
  deriving DecidableEq, Repr

/-- Which post rows are wanted, in which order and how many. -/
structure ListingQuery where
  /-- Wanted colors; none leaves posts without colors in. -/
  colors : List ColorPredicate
  /-- Wanted words; none leaves posts without keywords in. -/
  keywords : List String
  conditions : List Condition
  order : RowOrder
  limit : Option Int
  deriving DecidableEq, Repr

/-- A text for a pattern, every character standing for itself. -/
def escapeLike (s : String) : String :=
  String.ofList (s.toList.flatMap fun c =>
    if c = '\\' ∨ c = '%' ∨ c = '_' then ['\\', c] else [c])

/-- The pattern of the texts that contain a given one. -/
def likePattern (s : String) : String := "%" ++ escapeLike s ++ "%"

namespace PostFilter

/-- The seed of the random order. Filters of that order have one. -/
def seedOrFirst (f : PostFilter) : Int := f.seed.getD firstSeed

/-- The condition that a cursor stands for. -/
def cursorCondition (f : PostFilter) (cursor : Int) : Condition :=
  match f.sort with
  | .time => .timeBefore cursor
  | .score => .scoreBefore cursor
  | .random => .shuffledAfter f.seedOrFirst cursor

/-- The order of the rows of a filter. -/
def rowOrder (f : PostFilter) : RowOrder :=
  match f.sort with
  | .time => .latest
  | .score => .best
  | .random => .shuffled f.seedOrFirst

/-- The conditions of a filter on the post row. -/
def conditions (f : PostFilter) : List Condition :=
  (f.cursor.map f.cursorCondition).toList ++
  (f.nsfw.map (.flagIs .nsfw)).toList ++
  (f.grayscale.map (.flagIs .grayscale)).toList ++
  (f.sprocket.map (.flagIs .sprocket)).toList ++
  (f.ids.map .idAmong).toList ++
  (f.title.map fun t => .titleLike (likePattern t)).toList ++
  (f.author.map .authorIs).toList ++
  (f.width.min.map (.sideWithin .width .atLeast)).toList ++
  (f.width.max.map (.sideWithin .width .atMost)).toList ++
  (f.height.min.map (.sideWithin .height .atLeast)).toList ++
  (f.height.max.map (.sideWithin .height .atMost)).toList ++
  (f.aspectRatio.min.map (.ratioWithin .atLeast)).toList ++
  (f.aspectRatio.max.map (.ratioWithin .atMost)).toList

end PostFilter

/-- The listing query of a filter. -/
def ListingQuery.ofFilter (f : PostFilter) : ListingQuery where
  colors := f.colors
  keywords := f.keywords
  conditions := f.conditions
  order := f.rowOrder
  limit := f.limit

end FilmCatalog
