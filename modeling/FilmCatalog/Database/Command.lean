import FilmCatalog.Listing.Sql
import FilmCatalog.Post.Patch
import FilmCatalog.Post.Submission

/-!
# Commands

A command is what a store asks of its database, before it becomes a statement.
Keywords and colors are written a whole list at a time. The times of the last
changes are kept by category; writing some of them leaves the others as they
were.

Key definitions: `Command`, `Command.statement`, `NewPost.columns`,
`Patch.rowChanges`, `Patch.categories`.
-/

namespace FilmCatalog

/-- A field of the post row that gets a new value. -/
inductive RowChange where
  | score (n : Int)
  | nsfw (b : Bool)
  | grayscale (b : Bool)
  | sprocket (b : Bool)
  deriving DecidableEq, Repr

namespace RowChange

/-- The column of a field. -/
def column : RowChange → String
  | .score _ => "score"
  | .nsfw _ => "nsfw"
  | .grayscale _ => "grayscale"
  | .sprocket _ => "sprocket"

/-- The new value of a field. -/
def value : RowChange → SqlValue
  | .score n => .int4 n
  | .nsfw b => .bool b
  | .grayscale b => .bool b
  | .sprocket b => .bool b

end RowChange

/-- What the time of the last change is kept of. -/
inductive UpdateCategory where
  | score
  | nsfw
  | grayscale
  | sprocket
  | colors
  | keywords
  deriving DecidableEq, Repr

namespace UpdateCategory

/-- The categories in the order of their columns. -/
def all : List UpdateCategory := [.score, .nsfw, .grayscale, .sprocket, .colors, .keywords]

/-- The column of a category. -/
def column : UpdateCategory → String
  | .score => "score_updated_at"
  | .nsfw => "nsfw_updated_at"
  | .grayscale => "grayscale_updated_at"
  | .sprocket => "sprocket_updated_at"
  | .colors => "colors_updated_at"
  | .keywords => "keywords_updated_at"

end UpdateCategory

namespace Patch

/-- The changes of a patch to the post row. -/
def rowChanges (p : Patch) : List RowChange :=
  (p.score.map .score).toList ++ (p.nsfw.map .nsfw).toList ++
    (p.grayscale.map .grayscale).toList ++ (p.sprocket.map .sprocket).toList

/-- Whether a patch carries something of a category. -/
def carries (p : Patch) : UpdateCategory → Bool
  | .score => p.score.isSome
  | .nsfw => p.nsfw.isSome
  | .grayscale => p.grayscale.isSome
  | .sprocket => p.sprocket.isSome
  | .colors => p.colors.isSome
  | .keywords => p.keywords.isSome

/-- The categories that a patch carries something of. -/
def categories (p : Patch) : List UpdateCategory := UpdateCategory.all.filter p.carries

end Patch

/-- What a store asks of its database. -/
inductive Command where
  | ping
  | listing (q : ListingQuery)
  | postIds
  | authors
  | keywordSummary (limit : Int)
  /-- Answers with the new id, or with no row if the permalink is stored already. -/
  | insertPost (p : NewPost)
  | idOfPermalink (permalink : String)
  | insertKeywords (post : Int) (keywords : List Keyword)
  | insertColors (post : Int) (colors : List Color)
  /-- Holds the post row until the transaction ends; answers with its id. -/
  | lockPost (post : Int)
  | updatePost (post : Int) (changes : List RowChange)
  | deleteKeywords (post : Int)
  | deleteColors (post : Int)
  | stampUpdates (post : Int) (now : Int) (touched : List UpdateCategory)
  /-- Answers with the id of the row that is gone. -/
  | deletePost (post : Int)
  deriving DecidableEq, Repr

/-- The columns of a new post row and their values. -/
def NewPost.columns (p : NewPost) : List (String × SqlValue) :=
  [("url", .text p.images.raw.url), ("title", .text p.title), ("author", .text p.author),
    ("permalink", .text p.permalink), ("score", .int4 p.score), ("nsfw", .bool p.nsfw),
    ("grayscale", .bool p.grayscale), ("sprocket", .bool p.sprocket), ("time", .int8 p.time),
    ("width", .int4 p.images.raw.width), ("height", .int4 p.images.raw.height),
    ("low_url", .text p.images.low.url), ("low_width", .int4 p.images.low.width),
    ("low_height", .int4 p.images.low.height), ("medium_url", .text p.images.medium.url),
    ("medium_width", .int4 p.images.medium.width),
    ("medium_height", .int4 p.images.medium.height), ("high_url", .text p.images.high.url),
    ("high_width", .int4 p.images.high.width), ("high_height", .int4 p.images.high.height)]

namespace Command

open Fragment

/-- Names one behind the other. -/
def nameList (names : List String) : String := ", ".intercalate names

/-- Placeholders for values one behind the other. -/
def valueList (values : List SqlValue) : Fragment := joined ", " (values.map value)

/-- A new post row. -/
def insertPostFragment (p : NewPost) : Fragment :=
  text ("INSERT INTO posts ( " ++ nameList (p.columns.map (·.1)) ++ " ) VALUES ( ") ++
    valueList (p.columns.map (·.2)) ++
    text " ) ON CONFLICT (permalink) DO NOTHING RETURNING id"

/-- New keyword rows of a post. -/
def insertKeywordsFragment (post : Int) (keywords : List Keyword) : Fragment :=
  text "INSERT INTO keywords (post_id, word, weight) SELECT " ++ value (.int8 post) ++
    text ", k.word, k.weight FROM UNNEST(" ++ value (.texts (keywords.map (·.word))) ++
    text "::text[], " ++ value (.floats (keywords.map (·.weight))) ++
    text "::float8[]) AS k(word, weight)"

/-- New color rows of a post. -/
def insertColorsFragment (post : Int) (colors : List Color) : Fragment :=
  text "INSERT INTO colors (post_id, hex, css, html, percent) SELECT " ++ value (.int8 post) ++
    text ", c.hex, c.css, c.html, c.percent FROM UNNEST(" ++
    value (.texts (colors.map (·.hex))) ++ text "::text[], " ++
    value (.texts (colors.map (·.css))) ++ text "::text[], " ++
    value (.texts (colors.map (·.html))) ++ text "::text[], " ++
    value (.floats (colors.map (·.percent))) ++
    text "::float8[]) AS c(hex, css, html, percent)"

/-- One field with its new value. -/
def changeFragment (c : RowChange) : Fragment := text (c.column ++ " = ") ++ value c.value

/-- The category's time is the new one, or the old one if there is no new one. -/
def keepOld (c : UpdateCategory) : String :=
  c.column ++ " = COALESCE(EXCLUDED." ++ c.column ++ ", post_updates." ++ c.column ++ ")"

/-- New times of last changes of a post. -/
def stampFragment (post now : Int) (touched : List UpdateCategory) : Fragment :=
  let columns := UpdateCategory.all.map UpdateCategory.column
  let stamps := UpdateCategory.all.map fun c =>
    SqlValue.timestamp (if touched.contains c then some now else none)
  text ("INSERT INTO post_updates ( " ++ nameList ("post_id" :: columns) ++ " ) VALUES (") ++
    valueList (.int8 post :: stamps) ++
    text (") ON CONFLICT (post_id) DO UPDATE SET " ++ nameList (UpdateCategory.all.map keepOld))

/-- A command in SQL, all but the limit of a listing. -/
def fragment : Command → Fragment
  | .ping => text "SELECT 1"
  | .listing q => q.fragment
  | .postIds => text "SELECT id FROM posts ORDER BY id ASC"
  | .authors => text "SELECT DISTINCT author FROM posts ORDER BY author ASC"
  | .keywordSummary limit =>
    text ("SELECT word, AVG(weight) AS weight, COUNT(*) AS count FROM keywords " ++
      "GROUP BY word ORDER BY count DESC, word ASC LIMIT ") ++ value (.int8 limit)
  | .insertPost p => insertPostFragment p
  | .idOfPermalink permalink =>
    text "SELECT id FROM posts WHERE permalink = " ++ value (.text permalink)
  | .insertKeywords post keywords => insertKeywordsFragment post keywords
  | .insertColors post colors => insertColorsFragment post colors
  | .lockPost post =>
    text "SELECT id FROM posts WHERE id = " ++ value (.int8 post) ++ text " FOR UPDATE"
  | .updatePost post changes =>
    text "UPDATE posts SET " ++ joined ", " (changes.map changeFragment) ++
      text " WHERE id = " ++ value (.int8 post)
  | .deleteKeywords post => text "DELETE FROM keywords WHERE post_id = " ++ value (.int8 post)
  | .deleteColors post => text "DELETE FROM colors WHERE post_id = " ++ value (.int8 post)
  | .stampUpdates post now touched => stampFragment post now touched
  | .deletePost post =>
    text "DELETE FROM posts WHERE id = " ++ value (.int8 post) ++ text " RETURNING id"

/-- The statement of a command. -/
def statement : Command → Statement
  | .listing q => q.statement
  | c => c.fragment.toStatement

end Command
end FilmCatalog
