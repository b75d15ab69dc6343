import FilmCatalog.Database.Fault
import FilmCatalog.Post.Author
import FilmCatalog.Post.Basic

/-!
# Result rows

A result row has named cells. Cells are read with the type that their column
must have; a null is accepted only in the gathered arrays of a listing, where
it stands for a post without children.

The arrays of one listing row belong together: their entries at one place make
one color or one keyword. Arrays of different lengths are refused, never cut.

Key definitions: `Cell`, `Row`, `PostRow.ofRow`, `PostRow.toPost`,
`Row.keywordSummary`.
-/

namespace FilmCatalog

/-- A value in a result row. -/
inductive Cell where
  | null
  | bool (b : Bool)
  | int (n : Int)
  | double (x : Double)
  | text (s : String)
  | texts (xs : List (Option String))
  | doubles (xs : List (Option Double))
  deriving DecidableEq, Repr

/-- The types of columns. -/
inductive ColumnType where
  | bool
  | int
  | double
  | text
  | texts
  | doubles
  deriving DecidableEq, Repr

/-- A result row: cells under the names of their columns. -/
abbrev Row := List (String × Cell)

/-- Why a null cannot be read. -/
def nullReason : String := "unexpected null; try decoding as an `Option`"

/-- Why a cell of another type cannot be read. -/
def typeReason : String := "mismatched types"

namespace Cell

/-- What a cell holds when it is read with one type. -/
inductive Reading (α : Type) where
  | null
  | mismatch
  | value (a : α)

/-- Reads a truth value. -/
def asBool : Cell → Reading Bool
  | .null => .null
  | .bool b => .value b
  | _ => .mismatch

/-- Reads an integer. -/
def asInt : Cell → Reading Int
  | .null => .null
  | .int n => .value n
  | _ => .mismatch

/-- Reads a double. -/
def asDouble : Cell → Reading Double
  | .null => .null
  | .double x => .value x
  | _ => .mismatch

/-- Reads a text. -/
def asText : Cell → Reading String
  | .null => .null
  | .text s => .value s
  | _ => .mismatch

/-- Reads entries none of which may be null. -/
def entries {α : Type} (xs : List (Option α)) : Reading (List α) :=
  match xs.mapM id with
  | some ys => .value ys
  | none => .null

/-- Reads texts; a null in place of the array is none at all. -/
def asTexts : Cell → Reading (List String)
  | .null => .value []
  | .texts xs => entries xs
  | _ => .mismatch

/-- Reads doubles; a null in place of the array is none at all. -/
def asDoubles : Cell → Reading (List Double)
  | .null => .value []
  | .doubles xs => entries xs
  | _ => .mismatch

end Cell

namespace Row

/-- What was read, or which fault the column named by `label` has. -/
def check {α : Type} (label : String) : Cell.Reading α → Except DatabaseFault α
  | .value a => .ok a
  | .null => .error (.columnDecode label nullReason)
  | .mismatch => .error (.columnDecode label typeReason)

/-- Reads a column by its name. -/
def column {α : Type} (r : Row) (read : Cell → Cell.Reading α) (name : String) :
    Except DatabaseFault α :=
  match r.lookup name with
  | some c => check ("\"" ++ name ++ "\"") (read c)
  | none => .error (.columnNotFound name)

/-- Reads the only column of a row, which is named by its position. -/
def single {α : Type} (r : Row) (read : Cell → Cell.Reading α) : Except DatabaseFault α :=
  match r with
  | (_, c) :: _ => check "0" (read c)
  | [] => .error (.columnNotFound "0")

end Row

/-- A row of a listing. -/
structure PostRow where
  id : Int
  url : String
  title : String
  author : String
  permalink : String
  score : Int
  nsfw : Bool
  grayscale : Bool
  sprocket : Bool
  time : Int
  width : Int
  height : Int
  lowUrl : String
  lowWidth : Int
  lowHeight : Int
  mediumUrl : String
  mediumWidth : Int
  mediumHeight : Int
  highUrl : String
  highWidth : Int
  highHeight : Int
  hexes : List String
  csses : List String
  htmls : List String
  percents : List Double
  words : List String
  weights : List Double
  totalCount : Int
  deriving DecidableEq, Repr

namespace PostRow

/-- The columns of a listing. -/
def columns : List (String × ColumnType) :=
  [("id", .int), ("url", .text), ("title", .text), ("author", .text), ("permalink", .text),
    ("score", .int), ("nsfw", .bool), ("grayscale", .bool), ("sprocket", .bool), ("time", .int),
    ("width", .int), ("height", .int), ("low_url", .text), ("low_width", .int),
    ("low_height", .int), ("medium_url", .text), ("medium_width", .int), ("medium_height", .int),
    ("high_url", .text), ("high_width", .int), ("high_height", .int), ("hexes", .texts),
    ("csses", .texts), ("htmls", .texts), ("percents", .doubles), ("words", .texts),
    ("weights", .doubles), ("total_count", .int)]

/-- Reads a row of a listing; the first column that cannot be read is reported. -/
def ofRow (r : Row) : Except DatabaseFault PostRow := do
  pure {
    id := ← r.column Cell.asInt "id"
    url := ← r.column Cell.asText "url"
    title := ← r.column Cell.asText "title"
    author := ← r.column Cell.asText "author"
    permalink := ← r.column Cell.asText "permalink"
    score := ← r.column Cell.asInt "score"
    nsfw := ← r.column Cell.asBool "nsfw"
    grayscale := ← r.column Cell.asBool "grayscale"
    sprocket := ← r.column Cell.asBool "sprocket"
    time := ← r.column Cell.asInt "time"
    width := ← r.column Cell.asInt "width"
    height := ← r.column Cell.asInt "height"
    lowUrl := ← r.column Cell.asText "low_url"
    lowWidth := ← r.column Cell.asInt "low_width"
    lowHeight := ← r.column Cell.asInt "low_height"
    mediumUrl := ← r.column Cell.asText "medium_url"
    mediumWidth := ← r.column Cell.asInt "medium_width"
    mediumHeight := ← r.column Cell.asInt "medium_height"
    highUrl := ← r.column Cell.asText "high_url"
    highWidth := ← r.column Cell.asInt "high_width"
    highHeight := ← r.column Cell.asInt "high_height"
    hexes := ← r.column Cell.asTexts "hexes"
    csses := ← r.column Cell.asTexts "csses"
    htmls := ← r.column Cell.asTexts "htmls"
    percents := ← r.column Cell.asDoubles "percents"
    words := ← r.column Cell.asTexts "words"
    weights := ← r.column Cell.asDoubles "weights"
    totalCount := ← r.column Cell.asInt "total_count" }

/-- The colors of equally long arrays, one of each place. -/
def zipColors : List String → List String → List String → List Double → Option (List Color)
  | [], [], [], [] => some []
  | hex :: hexes, css :: csses, html :: htmls, percent :: percents =>
    (zipColors hexes csses htmls percents).map (⟨hex, css, html, percent⟩ :: ·)
  | _, _, _, _ => none

/-- The keywords of equally long arrays, one of each place. -/
def zipKeywords : List String → List Double → Option (List Keyword)
  | [], [] => some []
  | word :: words, weight :: weights => (zipKeywords words weights).map (⟨word, weight⟩ :: ·)
  | _, _ => none

/-- The fault of a row whose arrays differ in length. -/
def mismatch (children : String) (id : Int) : StoreError :=
  .integrity (children ++ " aggregates for post " ++ toString id ++ " have mismatched lengths")

/-- The four images of a row. -/
def images (r : PostRow) : ImageSet where
  low := ⟨r.lowUrl, r.lowWidth, r.lowHeight⟩
  medium := ⟨r.mediumUrl, r.mediumWidth, r.mediumHeight⟩
  high := ⟨r.highUrl, r.highWidth, r.highHeight⟩
  raw := ⟨r.url, r.width, r.height⟩

/-- The post of a row, its author as shown. -/
def toPost (r : PostRow) : Except StoreError Post :=
  match zipColors r.hexes r.csses r.htmls r.percents with
  | none => .error (mismatch "color" r.id)
  | some colors =>
    match zipKeywords r.words r.weights with
    | none => .error (mismatch "keyword" r.id)
    | some keywords =>
      .ok {
        id := r.id
        title := r.title
        author := Author.shown r.author
        permalink := r.permalink
        score := r.score
        nsfw := r.nsfw
        grayscale := r.grayscale
        sprocket := r.sprocket
        time := r.time
        images := r.images
        colors := colors
        keywords := keywords }

end PostRow

/-- Reads a row of the keyword summary. -/
def Row.keywordSummary (r : Row) : Except DatabaseFault KeywordSummary := do
  let word ← r.column Cell.asText "word"
  let weight ← r.column Cell.asDouble "weight"
  let count ← r.column Cell.asInt "count"
  pure ⟨word, weight, count⟩

end FilmCatalog
