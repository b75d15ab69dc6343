import FilmCatalog.Number.Double

/-!
# Posts

A post is a scanned photograph with its four image sizes, the colors that
cover it and the keywords found in it. Scores and image sizes have 32 bits,
ids and times 64; the readers of outside data see to that.

Key definitions: `Post`, `ImageSet`, `ImageVariant`, `PostPage`, `KeywordSummary`.
-/

namespace FilmCatalog

/-- The four sizes in which an image is kept. -/
inductive ImageVariant where
  | low
  | medium
  | high
  | raw
  deriving DecidableEq, Repr

namespace ImageVariant

/-- The variants from the smallest to the largest. -/
def all : List ImageVariant := [.low, .medium, .high, .raw]

/-- The name of a variant. -/
def name : ImageVariant → String
  | .low => "low"
  | .medium => "medium"
  | .high => "high"
  | .raw => "raw"

end ImageVariant

/-- An image that can be fetched. -/
structure Image where
  url : String
  width : Int
  height : Int
  deriving DecidableEq, Repr

/-- An image in its four sizes. -/
structure ImageSet where
  low : Image
  medium : Image
  high : Image
  raw : Image
  deriving DecidableEq, Repr

/-- The image of one size. -/
def ImageSet.get (s : ImageSet) : ImageVariant → Image
  | .low => s.low
  | .medium => s.medium
  | .high => s.high
  | .raw => s.raw

/-- The images with their variants, from the smallest to the largest. -/
def ImageSet.toList (s : ImageSet) : List (ImageVariant × Image) :=
  ImageVariant.all.map fun v => (v, s.get v)

/-- A color and the share of the photograph that it covers. -/
structure Color where
  hex : String
  css : String
  html : String
  percent : Double
  deriving DecidableEq, Repr

/-- A word found for a photograph and its weight. -/
structure Keyword where
  word : String
  weight : Double
  deriving DecidableEq, Repr

/-- A post as readers see it. -/
structure Post where
  id : Int
  title : String
  author : String
  permalink : String
  score : Int
  nsfw : Bool
  grayscale : Bool
  sprocket : Bool
  /-- When the photograph was submitted, in seconds. -/
  time : Int
  images : ImageSet
  colors : List Color
  keywords : List Keyword
  deriving DecidableEq, Repr

/-- Some posts of a listing and how many the whole listing has. -/
structure PostPage where
  posts : List Post
  total : Int
  deriving DecidableEq, Repr

/-- How a keyword is used over the whole catalog. -/
structure KeywordSummary where
  word : String
  weight : Double
  count : Int
  deriving DecidableEq, Repr

end FilmCatalog
