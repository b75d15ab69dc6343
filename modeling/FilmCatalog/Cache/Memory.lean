/-!
# The memory backend

A store of at most `capacity` entries, the most recently used first. Setting
or successfully getting an entry makes it the most recent; looking whether it
is there does not. A new entry drops the least recent one when the store is
full. An entry can be read before its time to live is over; one that is read
too late is dropped.

Times are nanoseconds of a clock that reads less than `2 ^ 63` seconds. An
entry whose end lies beyond cannot be set.

Key definitions: `MemoryStore`, `MemoryStore.get`, `MemoryStore.set?`,
`MemoryStore.delete`, `MemoryStore.contains`, `expiry?`.
Key theorems: `MemoryStore.size_put_le`, `MemoryStore.size_set_le`.
-/

namespace FilmCatalog

/-- A second in nanoseconds. -/
def second : Nat := 1000000000

/-- The first time that the clock cannot read, `2 ^ 63` seconds. -/
def clockEnd : Nat := 9223372036854775808 * second

/-- The end of a time to live in seconds, if the clock reaches it. -/
def expiry? (now ttl : Nat) : Option Nat :=
  let t := now + ttl * second
  if t < clockEnd then some t else none

/-- A stored value and when it ceases to be readable. -/
structure CacheEntry where
  value : ByteArray
  expiresAt : Nat

/-- The entries, the most recently used first. -/
structure MemoryStore where
  capacity : Nat
  entries : List (String × CacheEntry)

namespace MemoryStore

/-- The largest capacity of a store: its entries are found through a table of a
power of two of places, of which seven eighths are used; with 17 bytes each,
no more than `2 ^ 58` places have addresses of 63 bits. -/
def largest : Nat := 252201579132747776

/-- The store without entries. -/
def empty (capacity : Nat) : MemoryStore := ⟨capacity, []⟩

/-- How many entries are stored, readable or not. -/
def size (s : MemoryStore) : Nat := s.entries.length

/-- The entry of a key. -/
def find? (s : MemoryStore) (key : String) : Option CacheEntry := s.entries.lookup key

/-- The entries of the other keys. -/
def others (s : MemoryStore) (key : String) : List (String × CacheEntry) :=
  s.entries.filter fun e => e.1 != key

/-- The value of a key, which becomes the most recent. -/
def get (s : MemoryStore) (now : Nat) (key : String) : Option ByteArray × MemoryStore :=
  match s.find? key with
  | some e =>
    if now < e.expiresAt then (some e.value, { s with entries := (key, e) :: s.others key })
    else (none, { s with entries := s.others key })
  | none => (none, s)

/-- The store with an entry as the most recent one. -/
def put (s : MemoryStore) (key : String) (e : CacheEntry) : MemoryStore :=
  let kept := if (s.find? key).isSome then s.others key else s.entries.take (s.capacity - 1)
  { s with entries := (key, e) :: kept }

/-- The store with a value for a time to live, if the clock reaches its end. -/
def set? (s : MemoryStore) (now : Nat) (key : String) (value : ByteArray) (ttl : Nat) :
    Option MemoryStore :=
  (expiry? now ttl).map fun t => s.put key ⟨value, t⟩

/-- The store without a key. -/
def delete (s : MemoryStore) (key : String) : MemoryStore := { s with entries := s.others key }

/-- Whether a key could be read now. -/
def contains (s : MemoryStore) (now : Nat) (key : String) : Bool :=
  (s.find? key).any fun e => decide (now < e.expiresAt)

theorem length_filter_lt {key : String} {entries : List (String × CacheEntry)}
    (h : (entries.lookup key).isSome) :
    (entries.filter fun e => e.1 != key).length < entries.length := by
  induction entries with
  | nil => simp at h
  | cons e rest ih =>
    obtain ⟨k, v⟩ := e
    by_cases hk : k = key
    · subst hk
      simpa using Nat.lt_succ_of_le (List.length_filter_le _ rest)
    · have hb : (key == k) = false := by simpa using fun h => hk h.symm
      rw [List.lookup_cons, hb] at h
      simpa [hk] using ih h

/-- An entry that is put keeps the store within its capacity. -/
theorem size_put_le {s : MemoryStore} {key : String} {e : CacheEntry} (hc : 0 < s.capacity)
    (hs : s.size ≤ s.capacity) : (s.put key e).size ≤ s.capacity := by
  simp only [put, size, find?, others, List.length_cons] at *
  by_cases hk : (s.entries.lookup key).isSome = true
  · have := length_filter_lt hk
    simp only [hk, if_true]
    omega
  · simp only [hk, Bool.false_eq_true, if_false, List.length_take]
    omega

/-- Setting keeps the store within its capacity. -/
theorem size_set_le {s t : MemoryStore} {now ttl : Nat} {key : String} {value : ByteArray}
    (hc : 0 < s.capacity) (hs : s.size ≤ s.capacity) (h : s.set? now key value ttl = some t) :
    t.size ≤ t.capacity := by
  obtain ⟨e, -, rfl⟩ := Option.map_eq_some_iff.1 h
  exact size_put_le hc hs

end MemoryStore
end FilmCatalog
