import FilmCatalog.Page.Meta
import FilmCatalog.Store.Basic

/-!
# The catalog

What a catalog offers: listings a page at a time, single posts, submissions,
patches and deletions, similar posts, and summaries. Requests are checked and
brought within the page limits before a store sees them; store errors become
service errors.

Key definitions: `PageLimits`, `Catalog`.
-/

namespace FilmCatalog

/-- Bounds of listings and of similarity requests. -/
structure PageLimits where
  defaultPageSize : Int := 20
  maxPageSize : Int := 200
  defaultSimilar : Int := defaultSimilarLimit
  maxSimilar : Int := 50
  deriving DecidableEq, Repr

/-- How many keywords a summary has if it is not said. -/
def defaultKeywordLimit : Int := 50

/-- A catalog over its stores. -/
structure Catalog (m : Type → Type) where
  reader : PostReader m
  writer : PostWriter m
  similarity : Option (SimilaritySource m)
  limits : PageLimits

namespace Catalog

variable {m : Type → Type} [Monad m]

/-- A store operation, its error as a service error. -/
def ofStore {α : Type} (x : ExceptT StoreError m α) : ExceptT ServiceError m α :=
  x.adapt ServiceError.ofStore

/-- A check of the domain, its error as a service error. -/
def ofDomain {α : Type} : Except DomainError α → ExceptT ServiceError m α
  | .ok a => pure a
  | .error e => throw (.domain e)

/-- A page of a listing. -/
def findPosts (c : Catalog m) (f : PostFilter) : ExceptT ServiceError m PostsPage := do
  let f := f.withPageSize c.limits.defaultPageSize c.limits.maxPageSize
  let page ← ofStore (c.reader.findPosts f)
  pure ⟨page.posts, PageMeta.ofPage f page.posts page.total⟩

/-- One post. -/
def findPost (c : Catalog m) (id : Int) : ExceptT ServiceError m Post := do
  match ← ofStore (c.reader.findPost id) with
  | some p => pure p
  | none => throw .notFound

/-- Stores a submission. -/
def createPost (c : Catalog m) (s : Submission) : ExceptT ServiceError m Post := do
  let p ← ofDomain (s.validate.mapError SubmissionFault.toError)
  ofStore (c.writer.create p)

/-- Patches a post. -/
def patchPost (c : Catalog m) (id : Int) (p : Patch) : ExceptT ServiceError m Unit := do
  ofDomain p.ensureNotEmpty
  ofStore (c.writer.patch id p)

/-- Deletes a post, then has it forgotten. The post is gone even if that fails. -/
def deletePost (c : Catalog m) (id : Int) : ExceptT ServiceError m Unit := do
  ofStore (c.writer.delete id)
  match c.similarity with
  | some s => discard (liftM (s.forget id).run : ExceptT ServiceError m _)
  | none => pure ()

/-- Every id. -/
def allIds (c : Catalog m) : ExceptT ServiceError m (List Int) := ofStore c.reader.allIds

/-- The similarity request around a post with the default limit. -/
def similarTo (c : Catalog m) (id : Int) : SimilarityFilter :=
  (SimilarityFilter.around id).withLimit c.limits.defaultSimilar

/-- Posts similar to one. -/
def findSimilar (c : Catalog m) (f : SimilarityFilter) : ExceptT ServiceError m (List Post) :=
  match c.similarity with
  | none => ofStore (throw (.unavailable "no similarity backend configured"))
  | some s => ofStore (s.findSimilar (f.withMaxLimit c.limits.maxSimilar))

/-- The most used keywords; a limit that is not positive counts as none. -/
def keywordSummary (c : Catalog m) (limit : Option Int) :
    ExceptT ServiceError m (List KeywordSummary) :=
  let asked := limit.filter fun n => decide (0 < n)
  ofStore (c.reader.keywordSummary (asked.getD defaultKeywordLimit))

/-- Every author. -/
def authors (c : Catalog m) : ExceptT ServiceError m (List String) := ofStore c.reader.authors

end Catalog
end FilmCatalog
