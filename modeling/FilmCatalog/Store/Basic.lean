import FilmCatalog.Filter.Similarity
import FilmCatalog.Post.Patch
import FilmCatalog.Post.Submission

/-!
# Stores

What the catalog needs from the places that keep posts. Each is a record of
operations in a monad of its own effects, so that a database, a cache in front
of one and a store in memory are exchangeable.

Key definitions: `PostReader`, `PostWriter`, `VectorIndex`, `SimilaritySource`.
-/

namespace FilmCatalog

/-- Where posts are read. -/
structure PostReader (m : Type → Type) where
  findPosts : PostFilter → ExceptT StoreError m PostPage
  findPost : Int → ExceptT StoreError m (Option Post)
  /-- Every id, ascending. -/
  allIds : ExceptT StoreError m (List Int)
  /-- Every author, as shown. -/
  authors : ExceptT StoreError m (List String)
  /-- The most used keywords, at most as many as asked for. -/
  keywordSummary : Int → ExceptT StoreError m (List KeywordSummary)

/-- Where posts are written. -/
structure PostWriter (m : Type → Type) where
  /-- A permalink that is stored already gives the stored post. -/
  create : NewPost → ExceptT StoreError m Post
  patch : Int → Patch → ExceptT StoreError m Unit
  delete : Int → ExceptT StoreError m Unit

/-- An index of the nearest posts. -/
structure VectorIndex (m : Type → Type) where
  /-- Ids from the most to the least similar. -/
  nearest : SimilarityFilter → ExceptT StoreError m (List Int)
  remove : Int → ExceptT StoreError m Unit

/-- Where similar posts are found. -/
structure SimilaritySource (m : Type → Type) where
  findSimilar : SimilarityFilter → ExceptT StoreError m (List Post)
  /-- A forgotten post is no longer found. -/
  forget : Int → ExceptT StoreError m Unit

end FilmCatalog
