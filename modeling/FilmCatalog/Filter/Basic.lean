import FilmCatalog.Json.Value
import FilmCatalog.Post.Basic

/-!
# Filters

A filter selects and orders the posts of a listing. It is built from loose
request parameters (`Filter.build`) so that requests that mean the same thing
give the same filter. Its JSON form names every field; its canonical text is
the key under which a listing is cached.

Key definitions: `SortMode`, `Bounds`, `ColorPredicate`, `PostFilter`,
`PostFilter.cursorKey`, `PostFilter.toJson`.
-/

namespace FilmCatalog

/-- The orders of a listing. -/
inductive SortMode where
  | time
  | score
  | random
  deriving DecidableEq, Repr

instance : Inhabited SortMode := ⟨.time⟩

/-- The name of an order in JSON. -/
def SortMode.name : SortMode → String
  | .time => "time"
  | .score => "score"
  | .random => "random"

/-- The name of an order in a page address. -/
def SortMode.queryName : SortMode → String
  | .time => "latest"
  | .score => "top"
  | .random => "random"

/-- A range with both ends included; a missing end leaves it open. -/
structure Bounds (α : Type) where
  min : Option α
  max : Option α
  deriving DecidableEq, Repr

namespace Bounds

/-- The range without ends. -/
def unbounded {α : Type} : Bounds α := ⟨none, none⟩

/-- Whether the range has no end. -/
def isUnbounded {α : Type} (b : Bounds α) : Bool := b.min.isNone && b.max.isNone

/-- A range in JSON. -/
def toJson {α : Type} (f : α → Json) (b : Bounds α) : Json :=
  .object [("min", Json.ofOption f b.min), ("max", Json.ofOption f b.max)]

end Bounds

/-- Asks for a color that covers more than a share of the photograph. -/
structure ColorPredicate where
  name : String
  minPercent : Double
  deriving DecidableEq, Repr

namespace ColorPredicate

/-- A color predicate in JSON. -/
def toJson (c : ColorPredicate) : Json :=
  .object [("name", .text c.name), ("min_percent", .double c.minPercent)]

/-- Equality of predicates, both zeros being one share. -/
def same (a b : ColorPredicate) : Bool := a.name == b.name && a.minPercent.equal b.minPercent

/-- The order by name, then by share in the total order of doubles. -/
def le (a b : ColorPredicate) : Bool :=
  decide (a.name < b.name) || (a.name == b.name && a.minPercent.rankLe b.minPercent)

end ColorPredicate

/-- What a listing shows and in which order. -/
structure PostFilter where
  limit : Option Int
  sort : SortMode
  cursor : Option Int
  nsfw : Option Bool
  grayscale : Option Bool
  sprocket : Option Bool
  /-- Present for the random order alone. -/
  seed : Option Int
  ids : Option (List Int)
  title : Option String
  /-- In stored form. -/
  author : Option String
  colors : List ColorPredicate
  keywords : List String
  width : Bounds Int
  height : Bounds Int
  aspectRatio : Bounds Double
  deriving DecidableEq, Repr

namespace PostFilter

/-- The filter that lets every post through, latest first. -/
def everything : PostFilter where
  limit := none
  sort := .time
  cursor := none
  nsfw := none
  grayscale := none
  sprocket := none
  seed := none
  ids := none
  title := none
  author := none
  colors := []
  keywords := []
  width := .unbounded
  height := .unbounded
  aspectRatio := .unbounded

instance : Inhabited PostFilter := ⟨everything⟩

/-- The same filter with other flags. -/
def withFlags (f : PostFilter) (nsfw grayscale sprocket : Option Bool) : PostFilter :=
  { f with nsfw := nsfw, grayscale := grayscale, sprocket := sprocket }

/-- The same filter behind a cursor. -/
def withCursor (f : PostFilter) (cursor : Int) : PostFilter := { f with cursor := some cursor }

/-- The limit as a page size: the default if there is none, at most `max`,
and none at all if that is not positive. -/
def withPageSize (f : PostFilter) (default max : Int) : PostFilter :=
  let limit := Min.min (f.limit.getD default) max
  { f with limit := if 0 < limit then some limit else none }

/-- The value of a post that a cursor of this filter compares with. -/
def cursorKey (f : PostFilter) (p : Post) : Int :=
  match f.sort with
  | .score => p.score
  | .time => p.time
  | .random => p.time

/-- A filter in JSON, every field by name. -/
def toJson (f : PostFilter) : Json :=
  .object [
    ("limit", Json.ofOption .int f.limit),
    ("sort", .text f.sort.name),
    ("cursor", Json.ofOption .int f.cursor),
    ("nsfw", Json.ofOption .bool f.nsfw),
    ("grayscale", Json.ofOption .bool f.grayscale),
    ("sprocket", Json.ofOption .bool f.sprocket),
    ("seed", Json.ofOption .int f.seed),
    ("ids", Json.ofOption (Json.ofList .int) f.ids),
    ("title", Json.ofOption .text f.title),
    ("author", Json.ofOption .text f.author),
    ("colors", Json.ofList ColorPredicate.toJson f.colors),
    ("keywords", Json.ofList .text f.keywords),
    ("width", f.width.toJson .int),
    ("height", f.height.toJson .int),
    ("aspect_ratio", f.aspectRatio.toJson .double)]

end PostFilter
end FilmCatalog
