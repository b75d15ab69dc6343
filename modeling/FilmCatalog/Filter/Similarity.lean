import FilmCatalog.Filter.Build

/-!
# Similarity filters

A similarity filter asks for the posts nearest to one post. The post itself
is always excluded; the excluded ids are kept in ascending order, each once,
and are searched by halving.

Key definitions: `SimilarityFilter`, `SimilarityFilter.around`,
`SimilarityFilter.excluding`, `SimilarityFilter.excludes`.
-/

namespace FilmCatalog

/-- The limit of a similarity filter that sets none. -/
def defaultSimilarLimit : Int := 12

/-- A request for the posts nearest to one post. -/
structure SimilarityFilter where
  id : Int
  limit : Int
  nsfw : Option Bool
  grayscale : Option Bool
  sprocket : Option Bool
  excludeIds : List Int
  deriving DecidableEq, Repr

namespace SimilarityFilter

/-- The request around a post without anything else. -/
def around (id : Int) : SimilarityFilter where
  id := id
  limit := defaultSimilarLimit
  nsfw := none
  grayscale := none
  sprocket := none
  excludeIds := [id]

/-- The same request with another limit; one that is not positive is ignored. -/
def withLimit (f : SimilarityFilter) (limit : Int) : SimilarityFilter :=
  if 0 < limit then { f with limit := limit } else f

/-- The same request with a limit of at most `max`, if that is positive. -/
def withMaxLimit (f : SimilarityFilter) (max : Int) : SimilarityFilter :=
  if 0 < max then { f with limit := min f.limit max } else f

/-- The same request with other flags. -/
def withFlags (f : SimilarityFilter) (nsfw grayscale sprocket : Option Bool) : SimilarityFilter :=
  { f with nsfw := nsfw, grayscale := grayscale, sprocket := sprocket }

/-- The same request with more ids excluded. -/
def excluding (f : SimilarityFilter) (ids : List Int) : SimilarityFilter :=
  { f with excludeIds := idSet (f.excludeIds ++ ids ++ [f.id]) }

/-- Whether `x` is among the elements of an ascending array from `low` on and
before `high`, by halving the range at most `fuel` times. -/
def searchBetween (xs : Array Int) (x : Int) : Nat → Nat → Nat → Bool
  | 0, _, _ => false
  | fuel + 1, low, high =>
    if low < high then
      let middle := low + (high - low) / 2
      match xs[middle]? with
      | some y =>
        if y = x then true
        else if y < x then searchBetween xs x fuel (middle + 1) high
        else searchBetween xs x fuel low middle
      | none => false
    else false

/-- Whether a post is excluded. -/
def excludes (f : SimilarityFilter) (id : Int) : Bool :=
  let xs := f.excludeIds.toArray
  searchBetween xs id (xs.size + 1) 0 xs.size

/-- A similarity filter in JSON, every field by name. -/
def toJson (f : SimilarityFilter) : Json :=
  .object [
    ("id", .int f.id),
    ("limit", .int f.limit),
    ("nsfw", Json.ofOption .bool f.nsfw),
    ("grayscale", Json.ofOption .bool f.grayscale),
    ("sprocket", Json.ofOption .bool f.sprocket),
    ("exclude_ids", Json.ofList .int f.excludeIds)]

end SimilarityFilter
end FilmCatalog
