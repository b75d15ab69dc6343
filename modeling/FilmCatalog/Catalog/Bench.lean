import FilmCatalog.Cache.Posts
import FilmCatalog.Cache.Similar
import FilmCatalog.Cache.System
import FilmCatalog.Catalog.Service
import FilmCatalog.Store.Ranked
import FilmCatalog.Store.Table

/-!
# A catalog in memory

A catalog over posts in memory, with or without caches. Similar posts are
always read from the store itself; only listings go through the listing cache.

Key definitions: `Bench`, `Bench.catalog`.
-/

namespace FilmCatalog

/-- Posts in memory and the caches in front of them. -/
structure Bench where
  table : PostTable
  cache : CacheSystem

/-- Where similar posts come from. -/
inductive SimilarityKind where
  | absent
  | plain
  | cached
  deriving DecidableEq, Repr

namespace Bench

/-- An action on the posts alone. -/
def onTable {α : Type} (x : StateM PostTable α) : StateM Bench α := fun b =>
  let (a, t) := x b.table
  (a, { b with table := t })

/-- An action on the caches alone. -/
def onCache {α : Type} (x : StateM CacheSystem α) : StateM Bench α := fun b =>
  let (a, c) := x b.cache
  (a, { b with cache := c })

/-- A store operation on the posts alone. -/
def storeOp {α : Type} (x : ExceptT StoreError (StateM PostTable) α) :
    ExceptT StoreError (StateM Bench) α := ExceptT.mk (onTable x.run)

/-- Reads the posts. -/
def reader : PostReader (StateM Bench) where
  findPosts f := storeOp (PostTable.reader.findPosts f)
  findPost id := storeOp (PostTable.reader.findPost id)
  allIds := storeOp PostTable.reader.allIds
  authors := storeOp PostTable.reader.authors
  keywordSummary limit := storeOp (PostTable.reader.keywordSummary limit)

/-- Writes the posts. -/
def writer : PostWriter (StateM Bench) where
  create p := storeOp (PostTable.writer.create p)
  patch id p := storeOp (PostTable.writer.patch id p)
  delete id := storeOp (PostTable.writer.delete id)

/-- The rankings. -/
def index : VectorIndex (StateM Bench) where
  nearest f := storeOp (PostTable.index.nearest f)
  remove id := storeOp (PostTable.index.remove id)

/-- The caches as a layer. -/
def layer : CacheLayer (StateM Bench) where
  get key := onCache (CacheSystem.layer.get key)
  delete key := onCache (CacheSystem.layer.delete key)
  submit t := onCache (CacheSystem.layer.submit t)
  count c ns := onCache (CacheSystem.layer.count c ns)

/-- The catalog; its listings are cached if there are cache settings. -/
def catalog (limits : PageLimits) (config : Option CacheConfig) (similarity : SimilarityKind) :
    Catalog (StateM Bench) :=
  let plain := SimilaritySource.ranked index reader
  { reader := match config with
      | some c => reader.cached layer c
      | none => reader
    writer := writer
    similarity := match similarity with
      | .absent => none
      | .plain => some plain
      | .cached => some (plain.cached layer (config.getD {}))
    limits := limits }

end Bench
end FilmCatalog
