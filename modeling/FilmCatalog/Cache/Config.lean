import FilmCatalog.Json.Decoder
import FilmCatalog.Text.Blank

/-!
# Cache settings

Which backend is used, how long entries live, and how many background writes
may run and wait. Every setting has a default. Capacity, workers and queue are
at least one whatever is configured.

Key definitions: `BackendKind`, `BackendKind.ofText?`, `CacheConfig`, `CacheConfig.decode`.
-/

namespace FilmCatalog

/-- The kinds of cache backends. -/
inductive BackendKind where
  | memory
  | redis
  deriving DecidableEq, Repr

namespace BackendKind

/-- The name of a kind. -/
def name : BackendKind → String
  | .memory => "memory"
  | .redis => "redis"

/-- The kind of a name exactly as written. -/
def ofName? (s : String) : Option BackendKind :=
  if s = "memory" then some .memory else if s = "redis" then some .redis else none

/-- The kind of a name without regard to case and surrounding blanks; else why not. -/
def ofText (s : String) : Except String BackendKind :=
  let name := Text.lower (Text.trim s)
  match ofName? name with
  | some kind => .ok kind
  | none => .error ("unknown cache backend `" ++ name ++ "`")

end BackendKind

/-- The settings of the caches; times to live are in seconds. -/
structure CacheConfig where
  backend : BackendKind := .memory
  redisUrl : Option String := none
  memoryCapacity : Nat := 1024
  postsTtl : Nat := 14400
  authorsTtl : Nat := 14400
  similarTtl : Nat := 86400
  /-- The time to live of the index from posts to the results they appear in. -/
  similarIdsTtl : Nat := 86400
  /-- How long one background write may take, in milliseconds. -/
  writeTimeout : Nat := 5000
  workers : Nat := 4
  /-- How many background writes may wait. -/
  queue : Nat := 256
  deriving DecidableEq, Repr

namespace CacheConfig

instance : Inhabited CacheConfig := ⟨{}⟩

/-- The capacity of the memory backend, at least one. -/
def capacityFloor (c : CacheConfig) : Nat := max c.memoryCapacity 1

/-- The number of workers, at least one. -/
def workersFloor (c : CacheConfig) : Nat := max c.workers 1

/-- The length of the queue, at least one. -/
def queueFloor (c : CacheConfig) : Nat := max c.queue 1

/-- Reads a backend kind: its name, or an object with the name alone and no value. -/
def decodeBackend : Json → Option BackendKind
  | .text s => BackendKind.ofName? s
  | .object [(name, .null)] => BackendKind.ofName? name
  | _ => none

/-- Reads an integer of 64 bits without sign. -/
def decodeWord : Json → Option Nat
  | .int n => (IntRange.longWord.check? n).map Int.toNat
  | _ => none

/-- Reads a text or null. -/
def decodeUrl : Json → Option (Option String)
  | .null => some none
  | .text s => some (some s)
  | _ => none

/-- The value of a setting: decoded if it is given, else its default. -/
def setting {α : Type} (f : Json → Option α) (default : α) : Option Json → Option α
  | some v => f v
  | none => some default

/-- The settings of the values given for them, each of them optional. -/
def ofParts (part : Nat → String → Option Json) : Option CacheConfig := do
  let d : CacheConfig := {}
  let backend ← setting decodeBackend d.backend (part 0 "backend")
  let redisUrl ← setting decodeUrl d.redisUrl (part 1 "redis_url")
  let memoryCapacity ← setting decodeWord d.memoryCapacity (part 2 "memory_capacity")
  let postsTtl ← setting decodeWord d.postsTtl (part 3 "posts_ttl_secs")
  let authorsTtl ← setting decodeWord d.authorsTtl (part 4 "authors_ttl_secs")
  let similarTtl ← setting decodeWord d.similarTtl (part 5 "similar_ttl_secs")
  let similarIdsTtl ← setting decodeWord d.similarIdsTtl (part 6 "similar_ids_ttl_secs")
  let writeTimeout ← setting decodeWord d.writeTimeout (part 7 "write_timeout_ms")
  let workers ← setting decodeWord d.workers (part 8 "writeback_workers")
  let queue ← setting decodeWord d.queue (part 9 "writeback_queue")
  pure ⟨backend, redisUrl, memoryCapacity, postsTtl, authorsTtl, similarTtl, similarIdsTtl,
    writeTimeout, workers, queue⟩

/-- Reads cache settings: an object of some of them, or an array of the first
ones in order. Other members are ignored. -/
def decode : Json → Option CacheConfig
  | .object members => ofParts fun _ name => members.lookup name
  | .array items => if items.length ≤ 10 then ofParts fun i _ => items[i]? else none
  | _ => none

end CacheConfig
end FilmCatalog
