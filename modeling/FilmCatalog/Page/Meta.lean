import FilmCatalog.Page.Url
import FilmCatalog.Post.Codec

/-!
# Page metadata

A page that is as long as the limit points at the next one: its cursor is the
cursor key of the last post. A shorter page is the last.

Key definitions: `PageMeta`, `PageMeta.ofPage`, `PostsPage`.
-/

namespace FilmCatalog

/-- What goes with a page of posts. -/
structure PageMeta where
  totalPosts : Int
  pageSize : Int
  nextPageId : Option Int
  nextPageUrl : Option String
  seed : Option Int
  deriving DecidableEq, Repr

namespace PageMeta

/-- The cursor of the page after one of a filter, if there is such a page. -/
def nextCursor? (f : PostFilter) (posts : List Post) : Option Int :=
  match f.limit, posts.getLast? with
  | some limit, some last => if (posts.length : Int) = limit then some (f.cursorKey last) else none
  | _, _ => none

/-- The metadata of a page of a filter. -/
def ofPage (f : PostFilter) (posts : List Post) (total : Int) : PageMeta :=
  let next := nextCursor? f posts
  { totalPosts := total
    pageSize := f.limit.getD posts.length
    nextPageId := next
    nextPageUrl := next.map f.pageUrl
    seed := f.seed }

/-- Page metadata in JSON. -/
def toJson (m : PageMeta) : Json :=
  .object [
    ("total_posts", .int m.totalPosts),
    ("page_size", .int m.pageSize),
    ("next_page_id", Json.ofOption .int m.nextPageId),
    ("next_page_url", Json.ofOption .text m.nextPageUrl),
    ("seed", Json.ofOption .int m.seed)]

end PageMeta

/-- A page of posts with its metadata. -/
structure PostsPage where
  posts : List Post
  info : PageMeta
  deriving DecidableEq, Repr

/-- A page with its metadata in JSON. -/
def PostsPage.toJson (p : PostsPage) : Json :=
  .object [("posts", Json.ofList Post.toJson p.posts), ("meta", p.info.toJson)]

end FilmCatalog
