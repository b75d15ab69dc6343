import FilmCatalog.Cache.Config
import FilmCatalog.Cache.Layer
import FilmCatalog.Post.Codec
import FilmCatalog.Store.Basic

/-!
# Cached listings

Listings and the list of authors are read through the cache: what it does not
have comes from the store and is written back later. Errors of the store are
passed on and never kept. The other reads go to the store.

Key definitions: `PostReader.cached`, `authorsId`.
-/

namespace FilmCatalog

/-- The id under which the list of authors is kept. -/
def authorsId : String := "all"

variable {m : Type → Type} [Monad m]

/-- A page of a listing through the cache. -/
def PostReader.cachedPage (inner : PostReader m) (layer : CacheLayer m) (ttl : Nat)
    (f : PostFilter) : ExceptT StoreError m PostPage := do
  let key := Namespace.posts.key (Fingerprint.of f.toJson)
  match ← layer.lookup .posts key PostPage.decode with
  | some page => pure page
  | none =>
    let page ← inner.findPosts f
    discard (layer.storeLater .posts key (some page.toJson.encoded) ttl)
    pure page

/-- The authors through the cache. -/
def PostReader.cachedAuthors (inner : PostReader m) (layer : CacheLayer m) (ttl : Nat) :
    ExceptT StoreError m (List String) := do
  let key := Namespace.authors.key authorsId
  match ← layer.lookup .authors key (Json.Decoder.list Json.Decoder.text) with
  | some authors => pure authors
  | none =>
    let authors ← inner.authors
    discard (layer.storeLater .authors key (some (Json.ofList .text authors).encoded) ttl)
    pure authors

/-- A reader with a cache in front of it. -/
def PostReader.cached (inner : PostReader m) (layer : CacheLayer m) (c : CacheConfig) :
    PostReader m where
  findPosts := inner.cachedPage layer c.postsTtl
  findPost := inner.findPost
  allIds := inner.allIds
  authors := inner.cachedAuthors layer c.authorsTtl
  keywordSummary := inner.keywordSummary

end FilmCatalog
