import FilmCatalog.Cache.Memory
import Mathlib

/-!
# What a memory store still has

A history of calls tells two things of every key, whatever the capacity: the
entry that was set last and not deleted since (`MemoryHistory.standing`), and
how long ago it was used (`MemoryHistory.recent`). A store has its entries in
the order of their last uses and each as it stands; so the entry that has to
make room is the one whose last use is longest ago, and an entry stays while
fewer other keys than there are places were used after it.

Key definitions: `MemoryCall`, `MemoryHistory`, `MemoryHistory.run`,
`MemoryHistory.recent`, `MemoryHistory.standing`, `MemoryStore.Mirrors`.
Key theorems: `MemoryStore.after_cases`, `MemoryHistory.mirrors_run`,
`MemoryHistory.find?_of_recent`, `keeps_what_was_used_last`.
-/

namespace FilmCatalog

/-- What a store is asked for. -/
inductive MemoryCall where
  | set (key : String) (value : ByteArray) (ttl : ℕ)
  | get (key : String)
  | delete (key : String)
  | contains (key : String)

/-- Calls and when each was made, the latest first. -/
abbrev MemoryHistory := List (ℕ × MemoryCall)

/-- The key that a call sets or tries to read. -/
def MemoryCall.touched? : MemoryCall → Option String
  | .set key _ _ => some key
  | .get key => some key
  | _ => none

/-- What is known of the entries after a call: the last one that was set counts,
unless it was deleted. -/
def MemoryCall.settle (now : ℕ) (known : String → Option CacheEntry) :
    MemoryCall → String → Option CacheEntry
  | .set key value ttl =>
    (expiry? now ttl).elim known fun ends => Function.update known key (some ⟨value, ends⟩)
  | .get _ => known
  | .delete key => Function.update known key none
  | .contains _ => known

namespace MemoryStore

/-- The stored keys, the most recently used first. -/
def keys (s : MemoryStore) : List String := s.entries.map Prod.fst

/-- The store after a call. A value whose end the clock does not reach is not set. -/
def after (s : MemoryStore) (now : ℕ) : MemoryCall → MemoryStore
  | .set key value ttl => (s.set? now key value ttl).getD s
  | .get key => (s.get now key).2
  | .delete key => s.delete key
  | .contains _ => s

/-- The key that a call uses: it is set, or it is read successfully. -/
def uses? (s : MemoryStore) (now : ℕ) : MemoryCall → Option String
  | .set key _ ttl => (expiry? now ttl).map fun _ => key
  | .get key => (s.get now key).1.map fun _ => key
  | _ => none

end MemoryStore

namespace MemoryHistory

/-- The store that the calls of a history leave. -/
def run (capacity : ℕ) : MemoryHistory → MemoryStore
  | [] => .empty capacity
  | (now, call) :: earlier => (run capacity earlier).after now call

/-- The keys that were used so far, each once, the one used last first. -/
def recent (capacity : ℕ) : MemoryHistory → List String
  | [] => []
  | (now, call) :: earlier =>
    match (run capacity earlier).uses? now call with
    | some key => key :: (recent capacity earlier).filter (· != key)
    | none => recent capacity earlier

/-- The entry of a key that was set last, unless it was deleted afterwards. -/
def standing : MemoryHistory → String → Option CacheEntry
  | [] => fun _ => none
  | (now, call) :: earlier => call.settle now (standing earlier)

end MemoryHistory

/-! ## Entries by their keys -/

namespace MemoryStore

variable {s : MemoryStore} {key other : String} {e e' : CacheEntry} {now : ℕ}

theorem isSome_find?_iff : (s.find? key).isSome = true ↔ key ∈ s.keys := by
  rw [find?, keys, List.lookup_isSome_iff]
  simp

theorem keys_delete : (s.delete key).keys = s.keys.filter (· != key) := by
  rw [delete, keys, others, keys, List.filter_map]
  rfl

theorem keys_put : (s.put key e).keys = key :: if key ∈ s.keys then s.keys.filter (· != key)
    else s.keys.take (s.capacity - 1) := by
  rw [put, keys, List.map_cons]
  simp only [isSome_find?_iff]
  split_ifs
  · exact congrArg _ keys_delete
  · rw [List.map_take, keys]

theorem find?_put : (s.put key e).find? key = some e := List.lookup_cons_self

theorem find?_delete (h : other ≠ key) : (s.delete key).find? other = s.find? other := by
  simp only [find?, delete, others]
  induction s.entries with
  | nil => rfl
  | cons first rest ih =>
    by_cases hkey : first.1 = key
    · rw [List.filter_cons_of_neg (by simpa using hkey), ih, List.lookup_cons,
        beq_false_of_ne (by rwa [hkey])]
    · rw [List.filter_cons_of_pos (by simpa using hkey), List.lookup_cons, List.lookup_cons, ih]

theorem find?_delete_self : (s.delete key).find? key = none := by
  rw [find?, List.lookup_eq_none_iff]
  intro p hp
  exact bne_iff_ne.2 (bne_iff_ne.1 (List.mem_filter.1 hp).2).symm

/-- What is found under another key than the one that was set. -/
theorem find?_put_eq (h : other ≠ key) : (s.put key e).find? other =
    List.lookup other (if key ∈ s.keys then s.others key else s.entries.take (s.capacity - 1)) := by
  rw [put, find?, List.lookup_cons, beq_false_of_ne h]
  simp only [isSome_find?_iff]

/-- No other entry comes in when one is set. -/
theorem find?_of_find?_put (h : other ≠ key) (hf : (s.put key e).find? other = some e') :
    s.find? other = some e' := by
  rw [find?_put_eq h] at hf
  split_ifs at hf
  · rw [← hf]
    exact (find?_delete h).symm
  · exact (List.take_prefix _ _).lookup_eq_some hf

/-- Setting a key leaves another one that is not pushed out. -/
theorem find?_put_of_ne (h : other ≠ key)
    (hstays : other ∈ s.keys → key ∈ s.keys ∨ s.keys.idxOf other < s.capacity - 1) :
    (s.put key e).find? other = s.find? other := by
  rw [find?_put_eq h]
  split_ifs with hkey
  · exact find?_delete h
  have hkept := List.take_prefix (s.capacity - 1) s.entries
  by_cases hmem : other ∈ s.keys
  · -- it is in front of the part that goes
    have htake : other ∈ (s.entries.take (s.capacity - 1)).map Prod.fst := by
      rw [List.map_take]
      exact (List.mem_take_iff_idxOf_lt hmem).2 ((hstays hmem).resolve_left hkey)
    have hfront : (List.lookup other (s.entries.take (s.capacity - 1))).isSome = true :=
      isSome_find?_iff (s := ⟨s.capacity, _⟩) |>.2 htake
    obtain ⟨found, hfound⟩ := Option.isSome_iff_exists.1 hfront
    rw [hfound]
    exact (hkept.lookup_eq_some hfound).symm
  · have hnone : s.find? other = none := by simpa using mt isSome_find?_iff.1 hmem
    rw [hnone]
    exact hkept.lookup_eq_none hnone

/-! ## What a call does -/

/-- An entry that is read successfully is put in front as it is. -/
theorem get_of_live (hf : s.find? key = some e) (h : now < e.expiresAt) :
    s.get now key = (some e.value, s.put key e) := by
  rw [get, hf]
  simp only [h, if_true, put, hf, Option.isSome_some]

theorem get_of_over (hf : s.find? key = some e) (h : ¬ now < e.expiresAt) :
    s.get now key = (none, s.delete key) := by
  rw [get, hf]
  simp only [h, if_false]
  rfl

theorem get_of_missing (hf : s.find? key = none) : s.get now key = (none, s) := by
  rw [get, hf]

/-- What is read is an entry whose time is not over. -/
theorem get_eq_some_iff {value : ByteArray} : (s.get now key).1 = some value ↔
    ∃ e, s.find? key = some e ∧ e.value = value ∧ now < e.expiresAt := by
  cases hf : s.find? key with
  | none => simp [get_of_missing hf]
  | some e =>
    by_cases h : now < e.expiresAt
    · simp [get_of_live hf h, h]
    · simp [get_of_over hf h, h]

/-- A key is contained if it could be read. -/
theorem contains_eq : s.contains now key = (s.get now key).1.isSome := by
  cases hf : s.find? key with
  | none => simp [contains, hf, get_of_missing hf]
  | some e =>
    by_cases h : now < e.expiresAt
    · simp [contains, hf, get_of_live hf h, h]
    · simp [contains, hf, get_of_over hf h, h]

section Set
variable {value : ByteArray} {ttl ends : ℕ}

theorem uses?_set (h : expiry? now ttl = some ends) :
    s.uses? now (.set key value ttl) = some key := by
  rw [uses?, h, Option.map_some]

theorem after_set (h : expiry? now ttl = some ends) :
    s.after now (.set key value ttl) = s.put key ⟨value, ends⟩ := by
  rw [after, set?, h, Option.map_some, Option.getD_some]

end Set

/-- A call uses a key, whose entry it puts in front; or it drops a key that is
deleted or over; or it changes nothing. -/
theorem after_cases (s : MemoryStore) (now : ℕ) (call : MemoryCall)
    (known : String → Option CacheEntry) :
    (∃ key e, s.uses? now call = some key ∧ s.after now call = s.put key e ∧
      (call.settle now known = Function.update known key (some e) ∨
        s.find? key = some e ∧ call.settle now known = known)) ∨
    (∃ key, s.uses? now call = none ∧ s.after now call = s.delete key ∧
      (call.settle now known = Function.update known key none ∨
        (∃ e, s.find? key = some e ∧ e.expiresAt ≤ now) ∧ call.settle now known = known)) ∨
    (s.uses? now call = none ∧ s.after now call = s ∧ call.settle now known = known) := by
  cases call with
  | set key value ttl =>
    rcases h : expiry? now ttl with _ | ends
    · refine .inr (.inr ⟨?_, ?_, ?_⟩)
      · rw [uses?, h, Option.map_none]
      · rw [after, set?, h, Option.map_none, Option.getD_none]
      · rw [MemoryCall.settle, h, Option.elim_none]
    · refine .inl ⟨key, ⟨value, ends⟩, uses?_set h, after_set h, .inl ?_⟩
      rw [MemoryCall.settle, h, Option.elim_some]
  | get key =>
    cases hf : s.find? key with
    | none =>
      refine .inr (.inr ⟨?_, ?_, rfl⟩)
      · rw [uses?, get_of_missing hf, Option.map_none]
      · rw [after, get_of_missing hf]
    | some e =>
      by_cases h : now < e.expiresAt
      · refine .inl ⟨key, e, ?_, ?_, .inr ⟨hf, rfl⟩⟩
        · rw [uses?, get_of_live hf h, Option.map_some]
        · rw [after, get_of_live hf h]
      · refine .inr (.inl ⟨key, ?_, ?_, .inr ⟨⟨e, hf, not_lt.1 h⟩, rfl⟩⟩)
        · rw [uses?, get_of_over hf h, Option.map_none]
        · rw [after, get_of_over hf h]
  | delete key => exact .inr (.inl ⟨key, rfl, rfl, .inl rfl⟩)
  | contains key => exact .inr (.inr ⟨rfl, rfl, rfl⟩)

end MemoryStore

/-! ## Places in a list -/

section Places
variable {l m : List String} {key other : String}

/-- In a part of a list a key is no further back. -/
theorem idxOf_le_of_sublist (h : l.Sublist m) (hm : m.Nodup) (hkey : key ∈ l) :
    l.idxOf key ≤ m.idxOf key := by
  induction h with
  | slnil => exact le_refl _
  | cons first h ih =>
    obtain ⟨hfirst, hm⟩ := List.nodup_cons.1 hm
    have hne : first ≠ key := fun heq => hfirst (heq ▸ h.subset hkey)
    rw [List.idxOf_cons_ne _ hne]
    exact (ih hm hkey).trans (Nat.le_succ _)
  | cons_cons first h ih =>
    by_cases hne : first = key
    · rw [hne, List.idxOf_cons_self, List.idxOf_cons_self]
    · rw [List.idxOf_cons_ne _ hne, List.idxOf_cons_ne _ hne]
      exact Nat.succ_le_succ (ih (List.nodup_cons.1 hm).2 ((List.mem_cons.1 hkey).resolve_left
        (Ne.symm hne)))

/-- Taking one key out moves another one up by one place at most. -/
theorem idxOf_le_idxOf_filter (hm : m.Nodup) (h : key ≠ other) :
    m.idxOf key ≤ (m.filter (· != other)).idxOf key + 1 := by
  induction m with
  | nil => exact Nat.zero_le _
  | cons first rest ih =>
    obtain ⟨hfirst, hrest⟩ := List.nodup_cons.1 hm
    by_cases hout : first = other
    · -- the others stay
      have hsame : rest.filter (· != other) = rest :=
        List.filter_eq_self.2 fun a ha => bne_iff_ne.2 fun heq => hfirst (hout ▸ heq ▸ ha)
      rw [List.filter_cons_of_neg (by simp [hout]), hsame, List.idxOf_cons_ne _ (hout ▸ h.symm)]
    · rw [List.filter_cons_of_pos (by simpa using hout)]
      by_cases hne : first = key
      · rw [hne, List.idxOf_cons_self]
        exact Nat.zero_le _
      · rw [List.idxOf_cons_ne _ hne, List.idxOf_cons_ne _ hne]
        exact Nat.succ_le_succ (ih hrest)

theorem idxOf_eq_length_takeWhile : m.idxOf key = (m.takeWhile (· != key)).length := by
  induction m with
  | nil => rfl
  | cons first rest ih =>
    by_cases h : first = key
    · simp [h]
    · rw [List.idxOf_cons_ne _ h, List.takeWhile_cons_of_pos (by simpa using h), ih,
        List.length_cons]

/-- What stands in front of a key after another one is taken out, stood there before. -/
theorem takeWhile_filter_subset (h : key ≠ other) :
    (m.filter (· != other)).takeWhile (· != key) ⊆ m.takeWhile (· != key) := by
  induction m with
  | nil => exact List.Subset.refl _
  | cons first rest ih =>
    by_cases hkey : first = key
    · rw [List.filter_cons_of_pos (by simpa [hkey] using h),
        List.takeWhile_cons_of_neg (by simp [hkey])]
      exact List.nil_subset _
    rw [List.takeWhile_cons_of_pos (l := rest) (by simpa using hkey)]
    by_cases hout : first = other
    · rw [List.filter_cons_of_neg (by simpa using hout)]
      exact List.subset_cons_of_subset _ ih
    · rw [List.filter_cons_of_pos (by simpa using hout),
        List.takeWhile_cons_of_pos (by simpa using hkey)]
      exact List.cons_subset_cons _ ih

end Places

/-! ## The store and its history -/

namespace MemoryStore

/-- What holds of a store between any two calls: it is not too full, has every
key once, the last used ones first, and each entry as it is known. -/
structure Mirrors (s : MemoryStore) (order : List String) (known : String → Option CacheEntry) :
    Prop where
  size_le : s.size ≤ s.capacity
  nodup : s.keys.Nodup
  ordered : s.keys.Sublist order
  distinct : order.Nodup
  known : ∀ key e, s.find? key = some e → known key = some e

namespace Mirrors

variable {s : MemoryStore} {order : List String} {known : String → Option CacheEntry}
  {key other : String} {e : CacheEntry}

/-- What stands behind a key that comes to the front. -/
theorem moved (h : s.Mirrors order known) (key : String) :
    (key :: order.filter (· != key)).Nodup :=
  List.nodup_cons.2 ⟨fun hmem => by simpa using (List.mem_filter.1 hmem).2, h.distinct.filter _⟩

theorem put (h : s.Mirrors order known) (hc : 0 < s.capacity) (key : String) (e : CacheEntry) :
    (s.put key e).Mirrors (key :: order.filter (· != key))
      (Function.update known key (some e)) where
  size_le := size_put_le hc h.size_le
  nodup := by
    rw [keys_put, List.nodup_cons]
    split_ifs with hkey
    · exact ⟨fun hmem => by simpa using (List.mem_filter.1 hmem).2, h.nodup.filter _⟩
    · exact ⟨fun hmem => hkey (List.mem_of_mem_take hmem), h.nodup.sublist (List.take_sublist _ _)⟩
  ordered := by
    rw [keys_put]
    refine List.Sublist.cons_cons key ?_
    split_ifs with hkey
    · exact h.ordered.filter _
    · have hsame : s.keys.filter (· != key) = s.keys :=
        List.filter_eq_self.2 fun a ha => bne_iff_ne.2 fun heq => hkey (heq ▸ ha)
      exact (List.take_sublist _ _).trans (hsame ▸ h.ordered.filter _)
  distinct := h.moved key
  known other e' hf := by
    by_cases hother : other = key
    · rw [hother, find?_put] at hf
      rw [hother, Function.update_self, hf]
    · rw [Function.update_of_ne hother]
      exact h.known other e' (find?_of_find?_put hother hf)

theorem delete (h : s.Mirrors order known) (key : String) :
    (s.delete key).Mirrors order (Function.update known key none) where
  size_le := (List.length_filter_le _ _).trans h.size_le
  nodup := by
    rw [keys_delete]
    exact h.nodup.filter _
  ordered := by
    rw [keys_delete]
    exact List.filter_sublist.trans h.ordered
  distinct := h.distinct
  known other e' hf := by
    by_cases hother : other = key
    · rw [hother, find?_delete_self] at hf
      cases hf
    · rw [Function.update_of_ne hother]
      rw [find?_delete hother] at hf
      exact h.known other e' hf

/-- Less that is stored may be known of more. -/
theorem of_update_none (h : s.Mirrors order (Function.update known key none)) :
    s.Mirrors order known where
  size_le := h.size_le
  nodup := h.nodup
  ordered := h.ordered
  distinct := h.distinct
  known other e hf := by
    have hknown := h.known other e hf
    by_cases hother : other = key
    · rw [hother, Function.update_self] at hknown
      cases hknown
    · rwa [Function.update_of_ne hother] at hknown

/-- The entry that is pushed out, if any: the last one of a full store, when a
new key comes in. -/
theorem put_cases (h : s.Mirrors order known) (hc : 0 < s.capacity) (key : String)
    (e : CacheEntry) :
    (∀ other, other ≠ key → (s.put key e).find? other = s.find? other) ∨
    s.find? key = none ∧ s.size = s.capacity ∧ ∃ oldest, (s.find? oldest).isSome = true ∧
      (s.put key e).find? oldest = none ∧
      (∀ other, other ≠ key → other ≠ oldest → (s.put key e).find? other = s.find? other) ∧
      ∀ other, (s.find? other).isSome = true → other ≠ oldest → [other, oldest].Sublist order := by
  have hlength : s.keys.length = s.size := List.length_map _
  by_cases hkey : key ∈ s.keys
  · exact .inl fun other hother => find?_put_of_ne hother fun _ => .inl hkey
  by_cases hfull : s.size < s.capacity
  · refine .inl fun other hother => find?_put_of_ne hother fun hmem => .inr ?_
    have hplace := List.idxOf_lt_length_of_mem hmem
    omega
  have hsize : s.size = s.capacity := le_antisymm h.size_le (not_lt.1 hfull)
  have hne : s.keys ≠ [] := List.length_pos_iff.1 (by omega)
  obtain ⟨front, oldest, hsplit⟩ : ∃ front oldest, s.keys = front ++ [oldest] :=
    ⟨_, _, (List.dropLast_concat_getLast hne).symm⟩
  have hfront : front.length = s.capacity - 1 := by
    rw [hsplit, List.length_append, List.length_singleton] at hlength
    omega
  have holdest : oldest ∈ s.keys := by simp [hsplit]
  have hmem : ∀ other, (s.find? other).isSome = true → other ≠ oldest → other ∈ front := by
    intro other hother hneq
    rw [isSome_find?_iff, hsplit, List.mem_append, List.mem_singleton] at hother
    exact hother.resolve_right hneq
  refine .inr ⟨by simpa using mt isSome_find?_iff.1 hkey, hsize, oldest, isSome_find?_iff.2 holdest,
    ?_, fun other hother hneq => find?_put_of_ne hother fun hstored => .inr ?_,
    fun other hother hneq => List.Sublist.trans ?_ h.ordered⟩
  · -- it is in the part that goes
    by_contra hstill
    have hput := isSome_find?_iff.1 (Option.isSome_iff_ne_none.2 hstill)
    rw [keys_put, if_neg hkey, hsplit, ← hfront, List.take_left, List.mem_cons] at hput
    rcases hput with rfl | hput
    · exact hkey holdest
    · have hnodup := hsplit ▸ h.nodup
      exact List.disjoint_of_nodup_append hnodup hput List.mem_cons_self
  · have hin := hmem other (isSome_find?_iff.2 hstored) hneq
    rw [hsplit, List.idxOf_append_of_mem hin, ← hfront]
    exact List.idxOf_lt_length_of_mem hin
  · rw [hsplit]
    exact (List.singleton_sublist.2 (hmem other hother hneq)).append (List.Sublist.refl [oldest])

end Mirrors
end MemoryStore

namespace MemoryHistory

open MemoryStore

variable {capacity : ℕ} {history : MemoryHistory} {now : ℕ} {key : String} {e : CacheEntry}

theorem capacity_run (capacity : ℕ) (history : MemoryHistory) :
    (run capacity history).capacity = capacity := by
  induction history with
  | nil => rfl
  | cons first earlier ih =>
    obtain ⟨now, call⟩ := first
    rw [run]
    rcases after_cases (run capacity earlier) now call (standing earlier) with
      ⟨key, e, -, ha, -⟩ | ⟨key, -, ha, -⟩ | ⟨-, ha, -⟩
    · rw [ha]
      exact ih
    · rw [ha]
      exact ih
    · rw [ha]
      exact ih

theorem recent_cons_some {call : MemoryCall}
    (h : (run capacity history).uses? now call = some key) :
    recent capacity ((now, call) :: history) =
      key :: (recent capacity history).filter (· != key) := by
  rw [recent, h]

theorem recent_cons_none {call : MemoryCall} (h : (run capacity history).uses? now call = none) :
    recent capacity ((now, call) :: history) = recent capacity history := by
  rw [recent, h]

/-- A store has its entries in the order of their last uses, each as it stands. -/
theorem mirrors_run (hc : 0 < capacity) (history : MemoryHistory) :
    (run capacity history).Mirrors (recent capacity history) (standing history) := by
  induction history with
  | nil => exact ⟨Nat.zero_le _, List.nodup_nil, .slnil, List.nodup_nil, fun key e h => by cases h⟩
  | cons first earlier ih =>
    obtain ⟨now, call⟩ := first
    have hroom : 0 < (run capacity earlier).capacity := by rwa [capacity_run]
    rw [run, standing]
    rcases after_cases (run capacity earlier) now call (standing earlier) with
      ⟨key, e, hu, ha, hknown⟩ | ⟨key, hu, ha, hknown⟩ | ⟨hu, ha, hknown⟩
    · rw [recent_cons_some hu, ha]
      rcases hknown with hknown | ⟨hf, hknown⟩
      · rw [hknown]
        exact ih.put hroom key e
      · have hput := ih.put hroom key e
        rwa [Function.update_eq_self_iff.2 (ih.known key e hf).symm, ← hknown] at hput
    · rw [recent_cons_none hu, ha]
      rcases hknown with hknown | ⟨-, hknown⟩
      · rw [hknown]
        exact ih.delete key
      · rw [hknown]
        exact (ih.delete key).of_update_none
    · rw [recent_cons_none hu, ha, hknown]
      exact ih

/-- A standing entry whose time is not over is there if fewer keys than there
are places are in front of it. -/
theorem find?_of_recent (hc : 0 < capacity) (htimes : ∀ c ∈ history, c.1 ≤ now)
    (hstands : standing history key = some e) (hlive : now < e.expiresAt)
    (hplace : (recent capacity history).idxOf key < capacity) :
    (run capacity history).find? key = some e := by
  induction history with
  | nil => cases hstands
  | cons first earlier ih =>
    obtain ⟨time, call⟩ := first
    have htime : time ≤ now := htimes _ List.mem_cons_self
    have hmirrors := mirrors_run hc earlier
    have ih := ih fun c hmem => htimes c (List.mem_cons_of_mem _ hmem)
    rw [run]
    rw [standing] at hstands
    rcases after_cases (run capacity earlier) time call (standing earlier) with
      ⟨used, e', hu, ha, hknown⟩ | ⟨dropped, hu, ha, hknown⟩ | ⟨hu, ha, hknown⟩
    · rw [recent_cons_some hu] at hplace
      rw [ha]
      by_cases hkey : key = used
      · -- it is used itself
        subst hkey
        rw [find?_put, ← hstands]
        rcases hknown with hknown | ⟨hf, hknown⟩
        · rw [hknown, Function.update_self]
        · rw [hknown, hmirrors.known key e' hf]
      · have hearlier : standing earlier key = some e := by
          rcases hknown with hknown | ⟨-, hknown⟩
          · rwa [hknown, Function.update_of_ne hkey] at hstands
          · rwa [hknown] at hstands
        rw [List.idxOf_cons_ne _ (Ne.symm hkey)] at hplace
        have hfound := ih hearlier
          ((idxOf_le_idxOf_filter hmirrors.distinct hkey).trans_lt hplace)
        rw [find?_put_of_ne hkey fun hstored => ?_, hfound]
        by_cases hmem : used ∈ (run capacity earlier).keys
        · exact .inl hmem
        · -- a new key pushes out none that stands far enough in front
          have hsame : (run capacity earlier).keys.filter (· != used) =
              (run capacity earlier).keys :=
            List.filter_eq_self.2 fun a ha => bne_iff_ne.2 fun heq => hmem (heq ▸ ha)
          have hback := idxOf_le_of_sublist (hsame ▸ hmirrors.ordered.filter (· != used))
            (hmirrors.distinct.filter _) hstored
          rw [capacity_run]
          right
          omega
    · rw [recent_cons_none hu] at hplace
      rw [ha]
      rcases hknown with hknown | ⟨⟨e', hf, hover⟩, hknown⟩
      · have hkey : key ≠ dropped := by
          rintro rfl
          rw [hknown, Function.update_self] at hstands
          cases hstands
        rw [hknown, Function.update_of_ne hkey] at hstands
        rw [find?_delete hkey]
        exact ih hstands hplace
      · rw [hknown] at hstands
        have hfound := ih hstands hplace
        have hkey : key ≠ dropped := by
          rintro rfl
          -- its time would be over
          obtain rfl : e = e' := Option.some.inj (hfound.symm.trans hf)
          omega
        rwa [find?_delete hkey]
    · rw [recent_cons_none hu] at hplace
      rw [ha]
      rw [hknown] at hstands
      exact ih hstands hplace

/-- A call sets or tries to read the key that it uses. -/
theorem touched?_of_uses? {s : MemoryStore} {call : MemoryCall} (h : s.uses? now call = some key) :
    call.touched? = some key := by
  cases call with
  | set other value ttl =>
    obtain ⟨_, -, hkey⟩ := Option.map_eq_some_iff.1 h
    exact congrArg some hkey
  | get other =>
    obtain ⟨_, -, hkey⟩ := Option.map_eq_some_iff.1 h
    exact congrArg some hkey
  | delete other => cases h
  | contains other => cases h

/-- The keys in front of one that was used are set or read afterwards. -/
theorem takeWhile_recent_subset {since before : MemoryHistory} {time : ℕ} {call : MemoryCall}
    (hused : (run capacity before).uses? time call = some key) :
    (recent capacity (since ++ (time, call) :: before)).takeWhile (· != key) ⊆
      since.filterMap (·.2.touched?) := by
  induction since with
  | nil =>
    rw [List.nil_append, recent_cons_some hused, List.takeWhile_cons_of_neg (by simp)]
    exact List.nil_subset _
  | cons first since ih =>
    obtain ⟨now, later⟩ := first
    rw [List.cons_append]
    cases hu : (run capacity (since ++ (time, call) :: before)).uses? now later with
    | none =>
      rw [recent_cons_none hu]
      exact List.Subset.trans ih ((List.sublist_cons_self (now, later) since).filterMap _).subset
    | some other =>
      have htouched : ((now, later) :: since).filterMap (·.2.touched?) =
          other :: since.filterMap (·.2.touched?) :=
        List.filterMap_cons_some (touched?_of_uses? hu)
      rw [recent_cons_some hu, htouched]
      by_cases hkey : other = key
      · rw [List.takeWhile_cons_of_neg (by simp [hkey])]
        exact List.nil_subset _
      · rw [List.takeWhile_cons_of_pos (by simpa using hkey)]
        exact List.cons_subset_cons _
          (List.Subset.trans (takeWhile_filter_subset (Ne.symm hkey)) ih)

/-- So many keys at most are in front of one that was used. -/
theorem idxOf_recent_le (hc : 0 < capacity) {since before : MemoryHistory} {time : ℕ}
    {call : MemoryCall} (hused : (run capacity before).uses? time call = some key) :
    (recent capacity (since ++ (time, call) :: before)).idxOf key ≤
      ((since.filterMap (·.2.touched?)).toFinset.erase key).card := by
  have hdistinct := (mirrors_run hc (since ++ (time, call) :: before)).distinct
  rw [idxOf_eq_length_takeWhile,
    ← List.toFinset_card_of_nodup (hdistinct.sublist (List.takeWhile_sublist _))]
  refine Finset.card_le_card fun other hother => ?_
  rw [List.mem_toFinset] at hother
  refine Finset.mem_erase.2 ⟨by simpa using List.mem_takeWhile_imp hother, ?_⟩
  exact List.mem_toFinset.2 (takeWhile_recent_subset hused hother)

end MemoryHistory

open MemoryHistory MemoryStore in
/-- A store that was asked for anything, with no reading of the clock ahead of
the last one, never has more entries than places nor two for one key. What it
reads is what was set last, unless it was deleted or its time is over. Setting
a key pushes out one entry at most, when the key is new and the store full, and
then the one whose last use is longest ago. So an entry that was neither deleted
nor is over is there as long as fewer other keys than there are places were set
or read since it was used. Looking whether a key is there changes nothing. -/
theorem keeps_what_was_used_last {capacity : ℕ} (hc : 0 < capacity) (history : MemoryHistory)
    (now : ℕ) (htimes : ∀ c ∈ history, c.1 ≤ now) :
    (run capacity history).size ≤ capacity ∧ (run capacity history).keys.Nodup ∧
    (∀ key value, ((run capacity history).get now key).1 = some value →
      ∃ e, standing history key = some e ∧ e.value = value ∧ now < e.expiresAt) ∧
    (∀ key, (run capacity history).contains now key =
      ((run capacity history).get now key).1.isSome) ∧
    -- what makes room for an entry that is set
    (∀ key value ttl ends, expiry? now ttl = some ends →
      (run capacity ((now, .set key value ttl) :: history)).find? key = some ⟨value, ends⟩ ∧
      ((∀ other, other ≠ key → (run capacity ((now, .set key value ttl) :: history)).find? other =
          (run capacity history).find? other) ∨
        (run capacity history).find? key = none ∧ (run capacity history).size = capacity ∧
        ∃ oldest, ((run capacity history).find? oldest).isSome = true ∧
          (run capacity ((now, .set key value ttl) :: history)).find? oldest = none ∧
          (∀ other, other ≠ key → other ≠ oldest →
            (run capacity ((now, .set key value ttl) :: history)).find? other =
              (run capacity history).find? other) ∧
          ∀ other, ((run capacity history).find? other).isSome = true → other ≠ oldest →
            [other, oldest].Sublist (recent capacity history))) ∧
    -- what stays
    (∀ since before time call key e, history = since ++ (time, call) :: before →
      (run capacity before).uses? time call = some key →
      ((since.filterMap (·.2.touched?)).toFinset.erase key).card < capacity →
      standing history key = some e → now < e.expiresAt →
      ((run capacity history).get now key).1 = some e.value) ∧
    ∀ key, run capacity ((now, .contains key) :: history) = run capacity history ∧
      recent capacity ((now, .contains key) :: history) = recent capacity history := by
  have hmirrors := mirrors_run hc history
  have hcapacity := capacity_run capacity history
  have hsize := hmirrors.size_le
  rw [hcapacity] at hsize
  refine ⟨hsize, hmirrors.nodup, fun key value hget => ?_,
    fun key => contains_eq, fun key value ttl ends hends => ?_,
    fun since before time call key e hsplit hused hfew hstands hlive => ?_, fun key => ⟨rfl, rfl⟩⟩
  · obtain ⟨e, hf, hvalue, hlive⟩ := get_eq_some_iff.1 hget
    exact ⟨e, hmirrors.known key e hf, hvalue, hlive⟩
  · have hset : run capacity ((now, .set key value ttl) :: history) =
        (run capacity history).put key ⟨value, ends⟩ := after_set hends
    rw [hset]
    have hcases := hmirrors.put_cases (hcapacity.symm ▸ hc) key ⟨value, ends⟩
    rw [hcapacity] at hcases
    exact ⟨find?_put, hcases⟩
  · have hplace : (recent capacity history).idxOf key < capacity := by
      rw [hsplit]
      exact (idxOf_recent_le hc hused).trans_lt hfew
    exact get_eq_some_iff.2 ⟨e, find?_of_recent hc htimes hstands hlive hplace, rfl, hlive⟩

/-- Two keys are set, the first one is read, and a third one is set. -/
def MemoryHistory.third : MemoryHistory :=
  [(4, .set "c" "z".toUTF8 60), (3, .get "a"), (2, .set "b" "y".toUTF8 60),
    (1, .set "a" "x".toUTF8 60)]

open MemoryHistory in
/-- With two places the entry that was read stays, and the other one makes room. -/
theorem read_entry_stays :
    0 < 2 ∧ (∀ c ∈ third, c.1 ≤ 5) ∧ ((run 2 third).get 5 "a").1 = some "x".toUTF8 ∧
      (run 2 third).find? "b" = none := by
  have htimes : ∀ c ∈ third, c.1 ≤ 5 := by decide
  obtain ⟨-, -, -, -, -, hstays, -⟩ := keeps_what_was_used_last (by decide : 0 < 2) third 5 htimes
  refine ⟨by decide, htimes, ?_, rfl⟩
  exact hstays [(4, .set "c" "z".toUTF8 60)]
    [(2, .set "b" "y".toUTF8 60), (1, .set "a" "x".toUTF8 60)] 3 (.get "a") "a"
    ⟨"x".toUTF8, 1 + 60 * second⟩ rfl rfl (by decide) rfl (by decide)

end FilmCatalog
