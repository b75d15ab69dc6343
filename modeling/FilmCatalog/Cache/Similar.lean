import FilmCatalog.Cache.Config
import FilmCatalog.Cache.Index
import FilmCatalog.Cache.Layer
import FilmCatalog.Filter.Similarity
import FilmCatalog.Post.Codec
import FilmCatalog.Store.Basic

/-!
# Cached similarity

Similar posts are read through the cache. For every post that a kept result
is about or contains, an index entry lists the result's fingerprint, so that
forgetting a post can delete every result that shows it.

Index entries are changed by reading and writing them back. A job that does so
first locks the stripes of its posts, in ascending order, and holds them until
it ends.

Key definitions: `stripe`, `Job.keepResult`, `Job.purge`, `SimilaritySource.cached`.
-/

namespace FilmCatalog

/-- How many stripes there are. -/
def stripeCount : Nat := 64

/-- The stripe of a post. -/
def stripe (id : Int) : Nat := (id % stripeCount).toNat

/-- The stripes of some posts, ascending and each once. -/
def stripesOf (ids : List Int) : List Nat :=
  (List.range stripeCount).filter fun s => ids.any fun id => stripe id == s

/-- The key of the index entry of a post. -/
def indexKey (id : Int) : String := Namespace.similarIds.key (toString id)

/-- Lists a fingerprint in the index entry of a post, then goes on. -/
def Job.remember (id : Int) (fingerprint : String) (ttl : Nat) (next : Job) : Job :=
  .get (indexKey id) fun
    | .error _ => .count .error .similarIds next
    | .ok found =>
      match IndexEntry.adding? (found.getD .empty) fingerprint with
      | none => next
      | some entry =>
        .set (indexKey id) entry ttl fun
          | .ok _ => next
          | .error _ => .count .error .similarIds next

/-- Keeps a result and lists it for each of its posts. -/
def Job.keepResult (fingerprint : String) (value : ByteArray) (ids : List Int)
    (ttl indexTtl : Nat) : Job :=
  Job.lockAll (stripesOf ids)
    (.set (Namespace.similar.key fingerprint) value ttl fun
      | .error _ => .count .error .similar .done
      | .ok _ => ids.foldr (fun id next => Job.remember id fingerprint indexTtl next) .done)

/-- Deletes every result listed for a post, then its index entry. -/
def Job.purge (id : Int) : Job :=
  Job.lockAll (stripesOf [id])
    (.get (indexKey id) fun
      | .error _ => .count .error .similarIds .done
      | .ok none => .done
      | .ok (some entry) =>
        (IndexEntry.read entry).foldr
          (fun fingerprint next => Job.remove .similar (Namespace.similar.key fingerprint) next)
          (Job.remove .similarIds (indexKey id) .done))

/-- The posts that a result is about or contains, ascending and each once. -/
def contributors (f : SimilarityFilter) (posts : List Post) : List Int :=
  idSet (posts.map (·.id) ++ [f.id])

variable {m : Type → Type} [Monad m]

/-- Similar posts through the cache. -/
def SimilaritySource.cachedSimilar (inner : SimilaritySource m) (layer : CacheLayer m)
    (c : CacheConfig) (f : SimilarityFilter) : ExceptT StoreError m (List Post) := do
  let fingerprint := Fingerprint.of f.toJson
  let key := Namespace.similar.key fingerprint
  match ← layer.lookup .similar key (Json.Decoder.list Post.decode) with
  | some posts => pure posts
  | none =>
    let posts ← inner.findSimilar f
    let value := (Json.ofList Post.toJson posts).encoded
    let job := Job.keepResult fingerprint value (contributors f posts) c.similarTtl c.similarIdsTtl
    discard (layer.submit ⟨.similar, key, job⟩)
    pure posts

/-- A similarity source with a cache in front of it. -/
def SimilaritySource.cached (inner : SimilaritySource m) (layer : CacheLayer m)
    (c : CacheConfig) : SimilaritySource m where
  findSimilar := inner.cachedSimilar layer c
  forget id := do
    discard (layer.submit ⟨.similarIds, indexKey id, Job.purge id⟩)
    inner.forget id

end FilmCatalog
