import FilmCatalog.Cache.Job
import FilmCatalog.Cache.Memory

/-!
# The probe backend

A memory backend that keeps a record of the calls it gets and that can be told
to fail or to be slow. Its clock stands still, so that entries either are over
at once or stay.

Key definitions: `Probe`, `Probe.get`, `Probe.set`, `Probe.delete`, `Probe.liveKeys`.
-/

namespace FilmCatalog

/-- The kinds of backend calls. -/
inductive CacheOp where
  | get
  | set
  | delete
  deriving DecidableEq, Repr

namespace CacheOp

/-- Every kind. -/
def all : List CacheOp := [.get, .set, .delete]

/-- The name of a kind. -/
def name : CacheOp → String
  | .get => "get"
  | .set => "set"
  | .delete => "delete"

/-- The kind of a name. -/
def ofName? (s : String) : Option CacheOp := all.find? (·.name == s)

end CacheOp

/-- A recorded call. -/
inductive CacheCall where
  | get (key : String) (hit : Bool)
  | set (key : String) (value : ByteArray) (ttl : Nat)
  | delete (key : String)
  | failed (op : CacheOp) (key : String)

/-- Whether a text begins with another. -/
def beginsWith : List Char → List Char → Bool
  | _, [] => true
  | [], _ :: _ => false
  | c :: s, d :: t => c == d && beginsWith s t

/-- Whether a text has another one in it. -/
def includes : List Char → List Char → Bool
  | [], t => t.isEmpty
  | c :: s, t => beginsWith (c :: s) t || includes s t

/-- A memory backend with a record of its calls. -/
structure Probe where
  store : MemoryStore
  /-- The time of the store, in nanoseconds. -/
  clock : Nat
  /-- Calls fail whose key has one of these texts in it. -/
  faults : List (CacheOp × String)
  /-- How long calls take, in milliseconds. -/
  delays : List (CacheOp × Nat)
  /-- The latest first. -/
  calls : List CacheCall
  /-- Every key that was set. -/
  keysSet : List String

namespace Probe

/-- The probe of an empty memory backend. -/
def empty (capacity : Nat) : Probe where
  store := .empty capacity
  clock := second
  faults := []
  delays := []
  calls := []
  keysSet := []

/-- The fault that failing calls report. -/
def fault : CacheFault := ⟨"probe", "connection refused"⟩

/-- Whether a call fails. -/
def fails (p : Probe) (op : CacheOp) (key : String) : Bool :=
  p.faults.any fun f => f.1 == op && includes key.toList f.2.toList

/-- How long a call takes. -/
def delay (p : Probe) (op : CacheOp) : Nat := (p.delays.lookup op).getD 0

/-- Makes calls of one kind fail if their key has a text in it. -/
def addFault (p : Probe) (op : CacheOp) (part : String) : Probe :=
  { p with faults := (op, part) :: p.faults }

/-- Lets calls of one kind succeed again. -/
def clearFaults (p : Probe) (op : CacheOp) : Probe :=
  { p with faults := p.faults.filter fun f => f.1 != op }

/-- Sets how long calls of one kind take. -/
def setDelay (p : Probe) (op : CacheOp) (ms : Nat) : Probe :=
  { p with delays := (op, ms) :: p.delays }

/-- The probe with one more recorded call. -/
def record (p : Probe) (c : CacheCall) : Probe := { p with calls := c :: p.calls }

/-- A read without a record. -/
def rawGet (p : Probe) (key : String) : Option ByteArray × Probe :=
  let (value, store) := p.store.get p.clock key
  (value, { p with store := store })

/-- A change without a record; none if the entry would last too long. -/
def rawSet? (p : Probe) (key : String) (value : ByteArray) (ttl : Nat) : Option Probe :=
  (p.store.set? p.clock key value ttl).map fun store =>
    { p with store := store, keysSet := key :: p.keysSet }

/-- A read. -/
def get (p : Probe) (key : String) : Fetched × Probe :=
  if p.fails .get key then (.error fault, p.record (.failed .get key))
  else
    let (value, p) := p.rawGet key
    (.ok value, p.record (.get key value.isSome))

/-- A change; no answer if the entry would last too long. -/
def set (p : Probe) (key : String) (value : ByteArray) (ttl : Nat) : Option Changed × Probe :=
  if p.fails .set key then (some (.error fault), p.record (.failed .set key))
  else
    let p := p.record (.set key value ttl)
    match p.rawSet? key value ttl with
    | some p => (some (.ok ()), p)
    | none => (none, p)

/-- A removal. -/
def delete (p : Probe) (key : String) : Changed × Probe :=
  if p.fails .delete key then (.error fault, p.record (.failed .delete key))
  else (.ok (), { p.record (.delete key) with store := p.store.delete key })

/-- The keys that were set and can still be read, ascending and each once. -/
def liveKeys (p : Probe) : List String :=
  (p.keysSet.eraseDups.filter fun k => p.store.contains p.clock k).mergeSort fun a b =>
    decide (a ≤ b)

end Probe
end FilmCatalog
