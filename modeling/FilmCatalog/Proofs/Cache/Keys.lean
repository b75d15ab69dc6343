import FilmCatalog.Cache.Similar
import Mathlib

/-!
# Keys and fingerprints

Entries of different namespaces or ids never have one key, so the results of
requests and the index entries of posts are kept apart. A fingerprint is a
digest of 64 digits of base sixteen, none of which is a separator.

Key theorems: `Namespace.key_inj`, `indexKey_injective`, `Fingerprint.mem_of`.
-/

namespace FilmCatalog

/-- A key tells its namespace and its id. -/
theorem Namespace.key_inj {ns ns' : Namespace} {a b : String} :
    ns.key a = ns'.key b ↔ ns = ns' ∧ a = b := by
  constructor
  · intro h
    have hl := congrArg String.toList h
    simp only [key, String.toList_append] at hl
    cases ns <;> cases ns' <;> simp [name] at hl ⊢ <;> exact String.toList_injective hl
  · rintro ⟨rfl, rfl⟩
    rfl

theorem indexKey_injective : Function.Injective indexKey := fun _ _ h =>
  Int.repr_injective (Namespace.key_inj.1 h).2

theorem similarKey_ne_indexKey (fingerprint : String) (id : Int) :
    Namespace.similar.key fingerprint ≠ indexKey id := fun h => by
  cases (Namespace.key_inj.1 h).1

namespace Fingerprint

theorem isAlphanum_hexDigit : ∀ n < 16, (Text.hexDigit n).isAlphanum = true := by decide

/-- A fingerprint has no characters but digits and letters. -/
theorem mem_of {v : Json} {c : Char} (h : c ∈ (Fingerprint.of v).toList) : c.isAlphanum = true := by
  simp only [Fingerprint.of, Digest.sha256Hex, String.toList_ofList, List.mem_flatMap,
    Digest.hexWord, List.mem_map] at h
  obtain ⟨w, -, i, -, rfl⟩ := h
  exact isAlphanum_hexDigit _ (Nat.mod_lt _ (by decide))

theorem of_ne_empty (v : Json) : Fingerprint.of v ≠ "" := by
  intro h
  have hl := congrArg (·.toList.length) h
  simp [Fingerprint.of, Digest.sha256Hex, Digest.sha256, Digest.hexWord] at hl

theorem separator_not_mem (v : Json) : IndexEntry.separator ∉ (Fingerprint.of v).toList :=
  fun h => absurd (mem_of h) (by decide)

end Fingerprint
end FilmCatalog
