import FilmCatalog.Json.Decoder
import FilmCatalog.Post.Basic

/-!
# Posts in JSON

How posts and their parts are written in JSON, each record with its members
in one fixed order, and how they are read back.

Key definitions: `Post.toJson`, `Post.decode`, `PostPage.toJson`, `PostPage.decode`.
-/

namespace FilmCatalog

/-- An image in JSON. -/
def Image.toJson (i : Image) : Json :=
  .object [("url", .text i.url), ("width", .int i.width), ("height", .int i.height)]

/-- Reads an image. -/
def Image.decode : Json.Decoder Image := fun d => do
  match ← Json.Decoder.fields ["url", "width", "height"] d with
  | [url, width, height] =>
    let url ← Json.Decoder.text url
    let width ← Json.Decoder.int32 width
    let height ← Json.Decoder.int32 height
    pure ⟨url, width, height⟩
  | _ => none

/-- An image set in JSON. -/
def ImageSet.toJson (s : ImageSet) : Json :=
  .object (s.toList.map fun (v, i) => (v.name, i.toJson))

/-- Reads an image set. -/
def ImageSet.decode : Json.Decoder ImageSet := fun d => do
  match ← Json.Decoder.fields (ImageVariant.all.map ImageVariant.name) d with
  | [low, medium, high, raw] =>
    let low ← Image.decode low
    let medium ← Image.decode medium
    let high ← Image.decode high
    let raw ← Image.decode raw
    pure ⟨low, medium, high, raw⟩
  | _ => none

/-- A variant in JSON. -/
def ImageVariant.toJson (v : ImageVariant) : Json := .text v.name

/-- The variant of a name. -/
def ImageVariant.ofName? (s : String) : Option ImageVariant :=
  ImageVariant.all.find? (·.name == s)

/-- Reads a variant: its name, or an object with the name alone and no value. -/
def ImageVariant.decode : Json.Decoder ImageVariant
  | .text s => s.bind ImageVariant.ofName?
  | .object [(name, .null)] => name.bind ImageVariant.ofName?
  | _ => none

/-- A color in JSON. -/
def Color.toJson (c : Color) : Json :=
  .object [("hex", .text c.hex), ("css", .text c.css), ("html", .text c.html),
    ("percent", .double c.percent)]

/-- Reads a color. -/
def Color.decode : Json.Decoder Color := fun d => do
  match ← Json.Decoder.fields ["hex", "css", "html", "percent"] d with
  | [hex, css, html, percent] =>
    let hex ← Json.Decoder.text hex
    let css ← Json.Decoder.text css
    let html ← Json.Decoder.text html
    let percent ← Json.Decoder.double percent
    pure ⟨hex, css, html, percent⟩
  | _ => none

/-- A keyword in JSON. -/
def Keyword.toJson (k : Keyword) : Json :=
  .object [("word", .text k.word), ("weight", .double k.weight)]

/-- Reads a keyword. -/
def Keyword.decode : Json.Decoder Keyword := fun d => do
  match ← Json.Decoder.fields ["word", "weight"] d with
  | [word, weight] =>
    let word ← Json.Decoder.text word
    let weight ← Json.Decoder.double weight
    pure ⟨word, weight⟩
  | _ => none

/-- A post in JSON. -/
def Post.toJson (p : Post) : Json :=
  .object [("id", .int p.id), ("title", .text p.title), ("author", .text p.author),
    ("permalink", .text p.permalink), ("score", .int p.score), ("nsfw", .bool p.nsfw),
    ("grayscale", .bool p.grayscale), ("sprocket", .bool p.sprocket), ("time", .int p.time),
    ("images", p.images.toJson), ("colors", Json.ofList Color.toJson p.colors),
    ("keywords", Json.ofList Keyword.toJson p.keywords)]

/-- Reads a post. -/
def Post.decode : Json.Decoder Post := fun d => do
  match ← Json.Decoder.fields ["id", "title", "author", "permalink", "score", "nsfw", "grayscale",
      "sprocket", "time", "images", "colors", "keywords"] d with
  | [id, title, author, permalink, score, nsfw, grayscale, sprocket, time, images, colors,
      keywords] =>
    let id ← Json.Decoder.int64 id
    let title ← Json.Decoder.text title
    let author ← Json.Decoder.text author
    let permalink ← Json.Decoder.text permalink
    let score ← Json.Decoder.int32 score
    let nsfw ← Json.Decoder.bool nsfw
    let grayscale ← Json.Decoder.bool grayscale
    let sprocket ← Json.Decoder.bool sprocket
    let time ← Json.Decoder.int64 time
    let images ← ImageSet.decode images
    let colors ← Json.Decoder.list Color.decode colors
    let keywords ← Json.Decoder.list Keyword.decode keywords
    pure ⟨id, title, author, permalink, score, nsfw, grayscale, sprocket, time, images, colors,
      keywords⟩
  | _ => none

/-- A page of posts in JSON. -/
def PostPage.toJson (p : PostPage) : Json :=
  .object [("posts", Json.ofList Post.toJson p.posts), ("total", .int p.total)]

/-- Reads a page of posts. -/
def PostPage.decode : Json.Decoder PostPage := fun d => do
  match ← Json.Decoder.fields ["posts", "total"] d with
  | [posts, total] =>
    let posts ← Json.Decoder.list Post.decode posts
    let total ← Json.Decoder.int64 total
    pure ⟨posts, total⟩
  | _ => none

/-- A keyword summary in JSON. -/
def KeywordSummary.toJson (k : KeywordSummary) : Json :=
  .object [("word", .text k.word), ("weight", .double k.weight), ("count", .int k.count)]

/-- Reads a keyword summary. -/
def KeywordSummary.decode : Json.Decoder KeywordSummary := fun d => do
  match ← Json.Decoder.fields ["word", "weight", "count"] d with
  | [word, weight, count] =>
    let word ← Json.Decoder.text word
    let weight ← Json.Decoder.double weight
    let count ← Json.Decoder.int64 count
    pure ⟨word, weight, count⟩
  | _ => none

end FilmCatalog
