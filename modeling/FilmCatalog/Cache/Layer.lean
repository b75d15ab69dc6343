import FilmCatalog.Cache.Job
import FilmCatalog.Json.Decoder

/-!
# The cache layer

A backend together with the pool that writes to it in the background. To its
callers the layer never fails: a fault is counted and looks like a miss.
Entries are the JSON text of their values.

Key definitions: `CacheLayer`, `CacheLayer.lookup`, `CacheLayer.storeLater`,
`CacheLayer.remove`, `Json.encoded`.
-/

namespace FilmCatalog

/-- The bytes that are stored for a value. -/
def Json.encoded (v : Json) : ByteArray := v.compact.toUTF8

/-- A backend, a pool and counters, in a monad of their effects. -/
structure CacheLayer (m : Type → Type) where
  get : String → m Fetched
  delete : String → m Changed
  /-- Queues a job; false if it was refused. -/
  submit : Task → m Bool
  count : Counter → Namespace → m Unit

/-- A job that stores bytes and counts a fault. -/
def Job.store (ns : Namespace) (key : String) (value : ByteArray) (ttl : Nat) : Job :=
  .set key value ttl fun
    | .ok _ => .done
    | .error _ => .count .error ns .done

/-- A job that deletes an entry, counts a fault and goes on. -/
def Job.remove (ns : Namespace) (key : String) (next : Job) : Job :=
  .delete key fun
    | .ok _ => next
    | .error _ => .count .error ns next

namespace CacheLayer

variable {m : Type → Type} [Monad m] {α : Type}

/-- The value of a key, if it is there and can be decoded. -/
def lookup (layer : CacheLayer m) (ns : Namespace) (key : String) (decode : Json.Decoder α) :
    m (Option α) := do
  match ← layer.get key with
  | .error _ =>
    layer.count .error ns
    pure none
  | .ok none =>
    layer.count .miss ns
    pure none
  | .ok (some bytes) =>
    match Json.Decoder.ofBytes? decode bytes with
    | some a =>
      layer.count .hit ns
      pure (some a)
    | none =>
      layer.count .error ns
      pure none

/-- Queues the storing of a value. One that could not be encoded is counted
as a fault. -/
def storeLater (layer : CacheLayer m) (ns : Namespace) (key : String)
    (encoded : Option ByteArray) (ttl : Nat) : m Bool := do
  match encoded with
  | some value => layer.submit ⟨ns, key, Job.store ns key value ttl⟩
  | none =>
    layer.count .error ns
    pure false

/-- Deletes a key now. -/
def remove (layer : CacheLayer m) (ns : Namespace) (key : String) : m Unit := do
  match ← layer.delete key with
  | .ok _ => pure ()
  | .error _ => layer.count .error ns

end CacheLayer
end FilmCatalog
