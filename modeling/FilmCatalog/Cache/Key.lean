import FilmCatalog.Digest.Sha256
import FilmCatalog.Json.Value

/-!
# Cache keys

A cache entry is found under a namespace and an id. The id of a request is its
fingerprint: the SHA-256 digest of its canonical JSON text.

Key definitions: `Namespace`, `Namespace.key`, `Fingerprint.of`.
-/

namespace FilmCatalog

/-- The namespaces of cache keys. -/
inductive Namespace where
  | posts
  | authors
  | similar
  | similarIds
  deriving DecidableEq, Repr

namespace Namespace

/-- Every namespace. -/
def all : List Namespace := [.posts, .authors, .similar, .similarIds]

/-- The name of a namespace in a key. -/
def name : Namespace → String
  | .posts => "posts"
  | .authors => "authors"
  | .similar => "similar"
  | .similarIds => "similar-ids"

/-- The namespace of a name. -/
def ofName? (s : String) : Option Namespace := all.find? (·.name == s)

/-- The key of an id. -/
def key (ns : Namespace) (id : String) : String := "darkroom:" ++ ns.name ++ ":" ++ id

end Namespace

/-- The digest that stands for a request. -/
def Fingerprint.of (v : Json) : String := Digest.sha256Hex v.canonical

end FilmCatalog
