import FilmCatalog.Filter.Basic
import FilmCatalog.Post.Author
import FilmCatalog.Text.Hex

/-!
# Page addresses

The address of the next page repeats the filter as a query string with the
cursor of that page. In a query string a space is written `+`; letters,
digits and `*-._` stand for themselves and every other byte is a percent sign
with two digits of base sixteen.

Key definitions: `Query.encode`, `PostFilter.pagePairs`, `PostFilter.pageUrl`.
-/

namespace FilmCatalog

namespace Query

/-- Whether a byte stands for itself in a query string. -/
def isPlain (c : Char) : Bool :=
  c.isAlphanum || c = '*' || c = '-' || c = '.' || c = '_'

/-- A digit of base sixteen, capital letters. -/
def bigHexDigit (n : Nat) : Char := (Text.hexDigit n).toUpper

/-- A byte in a query string. -/
def encodeByte (b : UInt8) : List Char :=
  let c := Char.ofNat b.toNat
  if b.toNat < 0x80 && isPlain c then [c]
  else if c = ' ' then ['+']
  else ['%', bigHexDigit (b.toNat / 16), bigHexDigit (b.toNat % 16)]

/-- A text in a query string. -/
def encode (s : String) : String :=
  String.ofList (s.toUTF8.toList.flatMap encodeByte)

/-- Names and values in a query string. -/
def ofPairs (pairs : List (String × String)) : String :=
  String.intercalate "&" (pairs.map fun (name, value) => encode name ++ "=" ++ encode value)

end Query

namespace PostFilter

/-- A pair for a value that is set. -/
def pairOf {α : Type} (name : String) (f : α → String) : Option α → List (String × String)
  | some a => [(name, f a)]
  | none => []

/-- A truth value in a page address. -/
def flagText (b : Bool) : String := if b then "true" else "false"

/-- The names and values that say what a filter selects, at a cursor. -/
def pagePairs (f : PostFilter) (cursor : Int) : List (String × String) :=
  [("sort", f.sort.queryName)] ++
  pairOf "page_size" toString f.limit ++
  [("page_id", toString cursor)] ++
  pairOf "seed" toString f.seed ++
  pairOf "nsfw" flagText f.nsfw ++
  pairOf "grayscale" flagText f.grayscale ++
  pairOf "sprocket" flagText f.sprocket ++
  pairOf "title" id f.title ++
  pairOf "author" Author.shown f.author ++
  (f.ids.getD []).map (fun n => ("ids", toString n)) ++
  f.colors.flatMap (fun c => [("color", c.name), ("min_color", c.minPercent.plainText)]) ++
  f.keywords.map (fun w => ("keyword", w)) ++
  pairOf "min_width" toString f.width.min ++
  pairOf "max_width" toString f.width.max ++
  pairOf "min_height" toString f.height.min ++
  pairOf "max_height" toString f.height.max ++
  pairOf "min_aspect_ratio" Double.plainText f.aspectRatio.min ++
  pairOf "max_aspect_ratio" Double.plainText f.aspectRatio.max

/-- The address of the page of a filter at a cursor. -/
def pageUrl (f : PostFilter) (cursor : Int) : String :=
  "/posts?" ++ Query.ofPairs (f.pagePairs cursor)

end PostFilter
end FilmCatalog
