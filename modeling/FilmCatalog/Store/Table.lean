import FilmCatalog.Store.Basic

/-!
# Posts in memory

A store that keeps its posts and rankings in lists, records every call and can
be told to fail. Its listings look at the ids, the flags and the cursor of a
filter alone.

Key definitions: `PostTable`, `PostTable.select`, `PostTable.reader`,
`PostTable.writer`, `PostTable.index`.
-/

namespace FilmCatalog

/-- The operations of a store. -/
inductive StoreOp where
  | findPosts
  | findPost
  | allIds
  | listAuthors
  | keywordSummary
  | createPost
  | patchPost
  | deletePost
  | nearest
  | remove
  deriving DecidableEq, Repr

namespace StoreOp

/-- Every operation. -/
def all : List StoreOp :=
  [.findPosts, .findPost, .allIds, .listAuthors, .keywordSummary, .createPost, .patchPost,
    .deletePost, .nearest, .remove]

/-- The name of an operation. -/
def name : StoreOp → String
  | .findPosts => "find_posts"
  | .findPost => "find_post"
  | .allIds => "all_ids"
  | .listAuthors => "list_authors"
  | .keywordSummary => "keyword_summary"
  | .createPost => "create_post"
  | .patchPost => "patch_post"
  | .deletePost => "delete_post"
  | .nearest => "nearest"
  | .remove => "remove"

/-- The operation of a name. -/
def ofName? (s : String) : Option StoreOp := all.find? (·.name == s)

end StoreOp

/-- A recorded call. -/
inductive StoreCall where
  | findPosts (f : PostFilter)
  | findPost (id : Int)
  | allIds
  | listAuthors
  | keywordSummary (limit : Int)
  | createPost (p : NewPost)
  | patchPost (id : Int)
  | deletePost (id : Int)
  | nearest (f : SimilarityFilter)
  | remove (id : Int)
  deriving DecidableEq, Repr

/-- The operation of a call. -/
def StoreCall.op : StoreCall → StoreOp
  | .findPosts _ => .findPosts
  | .findPost _ => .findPost
  | .allIds => .allIds
  | .listAuthors => .listAuthors
  | .keywordSummary _ => .keywordSummary
  | .createPost _ => .createPost
  | .patchPost _ => .patchPost
  | .deletePost _ => .deletePost
  | .nearest _ => .nearest
  | .remove _ => .remove

/-- Posts and rankings in memory. -/
structure PostTable where
  posts : List Post
  /-- The nearest posts of a post, the nearest first. -/
  rankings : List (Int × List Int)
  summary : List KeywordSummary
  faults : List (StoreOp × StoreError)
  /-- The latest first. -/
  calls : List StoreCall

namespace PostTable

/-- Whether a flag is as wanted. -/
def flagFits (wanted : Option Bool) (b : Bool) : Bool := wanted.all (· == b)

/-- Whether a post is in a listing. -/
def fits (f : PostFilter) (p : Post) : Bool :=
  f.ids.all (·.contains p.id) && flagFits f.nsfw p.nsfw && flagFits f.grayscale p.grayscale &&
    flagFits f.sprocket p.sprocket && f.cursor.all fun c => decide (f.cursorKey p < c)

/-- Whether one post comes before another or at its place: the better score
first if it counts, then the later time, then the higher id. -/
def before (f : PostFilter) (p q : Post) : Bool :=
  let score (r : Post) : Int := if f.sort = .score then r.score else 0
  let sameScore := score p == score q
  decide (score q < score p) || (sameScore && decide (q.time < p.time)) ||
    (sameScore && p.time == q.time && decide (q.id ≤ p.id))

/-- A page of a listing. -/
def select (t : PostTable) (f : PostFilter) : PostPage :=
  let found := (t.posts.filter (fits f)).mergeSort (before f)
  let shown := match f.limit with
    | some n => found.take n.toNat
    | none => found
  ⟨shown, found.length⟩

/-- The post of an id. -/
def find? (t : PostTable) (id : Int) : Option Post := t.posts.find? (·.id == id)

/-- The id of the next post. -/
def nextId (t : PostTable) : Int :=
  match (t.posts.map (·.id)).max? with
  | some n => n + 1
  | none => 1

/-- A post with a patch. -/
def patched (p : Patch) (q : Post) : Post :=
  { q with
    score := p.score.getD q.score
    nsfw := p.nsfw.getD q.nsfw
    grayscale := p.grayscale.getD q.grayscale
    sprocket := p.sprocket.getD q.sprocket
    colors := p.colors.getD q.colors
    keywords := p.keywords.getD q.keywords }

/-- Lets an operation fail, or succeed again. -/
def setFault (t : PostTable) (op : StoreOp) (e : Option StoreError) : PostTable :=
  let others := t.faults.filter fun f => f.1 != op
  match e with
  | some e => { t with faults := (op, e) :: others }
  | none => { t with faults := others }

/-- An operation: it is recorded, then fails if it was told to. -/
def operation {α : Type} (call : StoreCall) (act : PostTable → Except StoreError α × PostTable) :
    ExceptT StoreError (StateM PostTable) α := fun t =>
  let t := { t with calls := call :: t.calls }
  match t.faults.lookup call.op with
  | some e => (.error e, t)
  | none => act t

/-- An operation that only reads. -/
def reading {α : Type} (call : StoreCall) (f : PostTable → α) :
    ExceptT StoreError (StateM PostTable) α :=
  operation call fun t => (.ok (f t), t)

/-- Reads posts from memory. -/
def reader : PostReader (StateM PostTable) where
  findPosts f := reading (.findPosts f) fun t => t.select f
  findPost id := reading (.findPost id) fun t => t.find? id
  allIds := reading .allIds fun t => (t.posts.map (·.id)).mergeSort fun a b => decide (a ≤ b)
  authors := reading .listAuthors fun t =>
    (t.posts.map (·.author)).eraseDups.mergeSort fun a b => decide (a ≤ b)
  keywordSummary limit := reading (.keywordSummary limit) fun t => t.summary.take limit.toNat

/-- Writes posts to memory. -/
def writer : PostWriter (StateM PostTable) where
  create p := operation (.createPost p) fun t =>
    match t.posts.find? (·.permalink == p.permalink) with
    | some q => (.ok q, t)
    | none =>
      let q := p.toPost t.nextId
      (.ok q, { t with posts := t.posts ++ [q] })
  patch id p := operation (.patchPost id) fun t =>
    match t.find? id with
    | none => (.error .notFound, t)
    | some _ =>
      (.ok (), { t with posts := t.posts.map fun q => if q.id = id then patched p q else q })
  delete id := operation (.deletePost id) fun t =>
    match t.find? id with
    | none => (.error .notFound, t)
    | some _ => (.ok (), { t with posts := t.posts.filter fun q => q.id != id })

/-- The rankings in memory. -/
def index : VectorIndex (StateM PostTable) where
  nearest f := reading (.nearest f) fun t => (t.rankings.lookup f.id).getD []
  remove id := operation (.remove id) fun t =>
    let kept := t.rankings.filter fun r => r.1 != id
    (.ok (), { t with rankings := kept.map fun r => (r.1, r.2.filter fun i => i != id) })

end PostTable
end FilmCatalog
