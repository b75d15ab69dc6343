import FilmCatalog.Cache.Index
import Mathlib

/-!
# Index entries, written and read

An entry holds names: texts that are not empty and have no separator in them.
What is read from any bytes is names, and names that are written are read back
as they were.

Key definitions: `IndexEntry.IsName`.
Key theorems: `isName_of_mem_read`, `read_write`, `read_of_adding?`.
-/

namespace FilmCatalog.IndexEntry

/-- Whether an entry can list a text. -/
def IsName (s : String) : Prop := s ≠ "" ∧ separator ∉ s.toList

theorem parts_eq_splitOn (s : List Char) : parts s = s.splitOn separator := by
  induction s with
  | nil => rfl
  | cons c rest ih =>
    rw [parts, List.splitOn_cons_eq_if_modifyHead, ih]
    obtain ⟨p, ps, hp⟩ := List.exists_cons_of_ne_nil (List.splitOn_ne_nil separator rest)
    by_cases hc : c = separator <;> simp [hc, hp]

/-- No part has a separator in it. -/
theorem separator_not_mem_parts {s p : List Char} (h : p ∈ parts s) : separator ∉ p := by
  induction s generalizing p with
  | nil =>
    simp only [parts, List.mem_singleton] at h
    simp [h]
  | cons c rest ih =>
    unfold parts at h
    split at h
    · rcases List.mem_cons.1 h with rfl | h
      · simp
      · exact ih h
    · rename_i hc
      split at h
      · rename_i q qs hq
        rw [hq] at ih
        rcases List.mem_cons.1 h with rfl | h
        · simpa [eq_comm] using ⟨hc, ih List.mem_cons_self⟩
        · exact ih (List.mem_cons_of_mem _ h)
      · simpa [List.mem_singleton.1 h, eq_comm] using hc

/-- Whatever the bytes are, names are read from them. -/
theorem isName_of_mem_read {bytes : ByteArray} {s : String} (h : s ∈ read bytes) : IsName s := by
  unfold read at h
  split at h
  · obtain ⟨p, hp, rfl⟩ := List.mem_map.1 h
    obtain ⟨hp, hne⟩ := List.mem_filter.1 hp
    refine ⟨fun he => ?_, by simpa using separator_not_mem_parts hp⟩
    have hl := congrArg String.toList he
    simp at hl
    simp [hl] at hne
  · cases h

/-- Names are read as they were written. -/
theorem read_write {names : List String} (h : ∀ s ∈ names, IsName s) :
    read (write names) = names := by
  have hbytes : String.fromUTF8? (write names) =
      some ((String.singleton separator).intercalate names) := by
    rw [String.fromUTF8?, write, String.toUTF8_eq_toByteArray, dif_pos (String.isValidUTF8 _)]
    rfl
  rw [read, hbytes]
  simp only [String.toList_intercalate, String.toList_singleton, parts_eq_splitOn]
  cases names with
  | nil => rfl
  | cons s rest =>
    have hfree : ∀ p ∈ (s :: rest).map String.toList, separator ∉ p := by
      intro p hp
      obtain ⟨t, ht, rfl⟩ := List.mem_map.1 hp
      exact (h t ht).2
    have hfull : ∀ p ∈ (s :: rest).map String.toList, (!p.isEmpty) = true := by
      intro p hp
      obtain ⟨t, ht, rfl⟩ := List.mem_map.1 hp
      simpa using (h t ht).1
    rw [List.splitOn_intercalate _ hfree (by simp), List.filter_eq_self.2 hfull, List.map_map]
    exact List.map_id'' (fun t => String.ofList_toList) _

/-- An entry that gets a name lists what was read before and then the name. -/
theorem read_of_adding? {bytes entry : ByteArray} {name : String} (hn : IsName name)
    (h : adding? bytes name = some entry) : read entry = read bytes ++ [name] := by
  simp only [adding?] at h
  split at h
  · cases h
  · cases h
    refine read_write fun s hs => ?_
    rcases List.mem_append.1 hs with hs | hs
    · exact isName_of_mem_read hs
    · rwa [List.mem_singleton.1 hs]

/-- An entry that gets no name lists it already. -/
theorem mem_read_of_adding? {bytes : ByteArray} {name : String} (h : adding? bytes name = none) :
    name ∈ read bytes := by
  simp only [adding?] at h
  split at h
  · rename_i hc
    simpa using hc
  · cases h

/-- An entry that gets a name does not list it yet. -/
theorem not_mem_of_adding? {bytes entry : ByteArray} {name : String}
    (h : adding? bytes name = some entry) : name ∉ read bytes := by
  simp only [adding?] at h
  split at h
  · cases h
  · rename_i hc
    simpa using hc

end FilmCatalog.IndexEntry
