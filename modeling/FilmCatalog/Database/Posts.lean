import FilmCatalog.Database.Program
import FilmCatalog.Store.Basic

/-!
# Posts in a database

The store operations as programs. A listing and every write run in a
transaction; the short reads go without. A permalink that is stored already
makes `insert` read the stored post and write nothing.

Key definitions: `Program.listing`, `Program.insert`, `Program.patch`,
`Program.delete`, `Link.reader`, `Link.writer`.
-/

namespace FilmCatalog
namespace Program

/-- A page of a listing and the number of all its posts, which every row repeats. -/
def listing (f : PostFilter) : Program PostPage := do
  let rows ← rows (.listing (.ofFilter f))
  let read ← ofRead (rows.mapM PostRow.ofRow)
  let posts ← ofStore (read.mapM PostRow.toPost)
  pure ⟨posts, (read.head?.map (·.totalCount)).getD 0⟩

/-- The id in the first of some rows, if there is one. -/
def firstId (rows : List Row) : Program (Option Int) :=
  match rows with
  | [] => pure none
  | r :: _ => some <$> ofRead (r.single Cell.asInt)

/-- Every id. -/
def postIds : Program (List Int) := do
  let rows ← rows .postIds
  ofRead (rows.mapM fun r => r.single Cell.asInt)

/-- Every author, as shown. -/
def authors : Program (List String) := do
  let rows ← rows .authors
  let stored ← ofRead (rows.mapM fun r => r.single Cell.asText)
  pure (stored.map Author.shown)

/-- The most used keywords. -/
def keywordSummary (limit : Int) : Program (List KeywordSummary) := do
  let rows ← rows (.keywordSummary limit)
  ofRead (rows.mapM Row.keywordSummary)

/-- The post that is stored under a permalink. -/
def storedPost (permalink : String) : Program Post := do
  match ← firstId (← rows (.idOfPermalink permalink)) with
  | none => fail DatabaseFault.rowNotFound.toStoreError
  | some id =>
    let page ← listing (PostFilter.byIds [id])
    match page.posts with
    | [] => fail .notFound
    | p :: _ => pure p

/-- Writes keywords, if there are any. -/
def writeKeywords (post : Int) (keywords : List Keyword) : Program Unit :=
  if keywords.isEmpty then pure () else execute (.insertKeywords post keywords)

/-- Writes colors, if there are any. -/
def writeColors (post : Int) (colors : List Color) : Program Unit :=
  if colors.isEmpty then pure () else execute (.insertColors post colors)

/-- Stores a new post. -/
def insert (p : NewPost) : Program Post := do
  match ← firstId (← rows (.insertPost p)) with
  | none => storedPost p.permalink
  | some id =>
    writeKeywords id p.keywords
    writeColors id p.colors
    pure (p.toPost id)

/-- Replaces the keywords of a post. -/
def replaceKeywords (post : Int) (keywords : List Keyword) : Program Unit := do
  execute (.deleteKeywords post)
  writeKeywords post keywords

/-- Replaces the colors of a post. -/
def replaceColors (post : Int) (colors : List Color) : Program Unit := do
  execute (.deleteColors post)
  writeColors post colors

/-- Changes what a patch carries; the post must be there. -/
def patch (post now : Int) (p : Patch) : Program Unit := do
  match ← firstId (← rows (.lockPost post)) with
  | none => fail .notFound
  | some _ =>
    if p.touchesRow then execute (.updatePost post p.rowChanges)
    p.keywords.forM (replaceKeywords post)
    p.colors.forM (replaceColors post)
    execute (.stampUpdates post now p.categories)

/-- Removes a post, which must be there and must be the one that is reported. -/
def delete (post : Int) : Program Unit := do
  match ← firstId (← rows (.deletePost post)) with
  | none => fail .notFound
  | some id =>
    if id = post then pure ()
    else fail (.integrity
      ("delete of post " ++ toString post ++ " reported post " ++ toString id))

end Program

namespace Link

variable {m : Type → Type} [Monad m]

/-- Whether the database answers. -/
def health (link : Link m) : ExceptT StoreError m Unit := (Program.execute .ping).run link

/-- Reads posts from a database. -/
def reader (link : Link m) : PostReader m where
  findPosts f := link.transaction (Program.listing f)
  findPost id := do
    let page ← link.transaction (Program.listing (PostFilter.byIds [id]))
    pure page.posts.head?
  allIds := Program.postIds.run link
  authors := Program.authors.run link
  keywordSummary limit := (Program.keywordSummary limit).run link

/-- Writes posts to a database. -/
def writer (link : Link m) : PostWriter m where
  create p := link.transaction (Program.insert p)
  patch id p :=
    if p.isEmpty then throw (.invalidInput Patch.emptyReason)
    else do
      let now ← link.clock
      link.transaction (Program.patch id now p)
  delete id := link.transaction (Program.delete id)

end Link
end FilmCatalog
