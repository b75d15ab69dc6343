import FilmCatalog.Text.Utf8
import Mathlib.Tactic

/-!
# Text read back from its bytes

The bytes of a text are read as its characters, with no ill-formed part.

Key theorems: `Text.Utf8.decodeFrom_encodeChar`, `Text.Utf8.decode_toUTF8`.
-/

namespace FilmCatalog.Text.Utf8

variable {b : UInt8} {o : Open} {rest : List UInt8}

theorem decodeFrom_whole {c : Char} (h : first b = .whole c) :
    decodeFrom none (b :: rest) = some c :: decodeFrom none rest := by
  rw [decodeFrom, h]

theorem decodeFrom_start (h : first b = .start o) :
    decodeFrom none (b :: rest) = decodeFrom (some o) rest := by
  rw [decodeFrom, h]

theorem toNat_ofNat_of_lt {n : ℕ} (h : n < 256) : (UInt8.ofNat n).toNat = n := by
  rw [UInt8.toNat_ofNat', Nat.mod_eq_of_lt h]

/-- A byte that goes on, if it fits and is the last one owed, completes the character. -/
theorem decodeFrom_last {bits low high : ℕ} (n : ℕ) (hlow : low ≤ n % 0x40 + 0x80)
    (hhigh : n % 0x40 + 0x80 ≤ high) :
    decodeFrom (some ⟨bits, 1, low, high⟩) (UInt8.ofNat (n % 0x40 + 0x80) :: rest) =
      some (Char.ofNat (bits * 64 + n % 64)) :: decodeFrom none rest := by
  have hbits : (n % 0x40 + 0x80) % 64 = n % 64 := by omega
  rw [decodeFrom, toNat_ofNat_of_lt (by omega)]
  simp [hlow, hhigh, hbits]

/-- A byte that goes on, if it fits, leaves one less owed. -/
theorem decodeFrom_next {bits owed low high : ℕ} (n : ℕ) (hlow : low ≤ n % 0x40 + 0x80)
    (hhigh : n % 0x40 + 0x80 ≤ high) :
    decodeFrom (some ⟨bits, owed + 2, low, high⟩) (UInt8.ofNat (n % 0x40 + 0x80) :: rest) =
      decodeFrom (some ⟨bits * 64 + n % 64, owed + 1, 0x80, 0xBF⟩) rest := by
  have hbits : (n % 0x40 + 0x80) % 64 = n % 64 := by omega
  rw [decodeFrom, toNat_ofNat_of_lt (by omega)]
  simp [hlow, hhigh, hbits]

/-! ## First bytes -/

theorem first_one {v : ℕ} (h : v ≤ 0x7f) : first (UInt8.ofNat v) = .whole (Char.ofNat v) := by
  have hlt : v < 0x80 := by omega
  rw [first, toNat_ofNat_of_lt (by omega)]
  simp [hlt]

theorem first_two {v : ℕ} (hlow : 0x7f < v) (hhigh : v ≤ 0x7ff) :
    first (UInt8.ofNat (v / 64 % 0x20 + 0xc0)) = .start ⟨v / 64, 1, 0x80, 0xBF⟩ := by
  have hbyte : v / 64 % 0x20 = v / 64 := Nat.mod_eq_of_lt (by omega)
  have hnot : ¬v / 64 + 0xc0 < 0x80 := by omega
  have hfrom : 0xC2 ≤ v / 64 + 0xc0 := by omega
  have hto : v / 64 + 0xc0 ≤ 0xDF := by omega
  rw [hbyte, first, toNat_ofNat_of_lt (by omega)]
  simp [hnot, hfrom, hto]

/-- The second byte is in the range that the first one leaves: not too low,
and outside the surrogates. -/
theorem first_three {v : ℕ} (hlow : 0x7ff < v) (hhigh : v ≤ 0xffff)
    (hchar : v < 0xd800 ∨ 0xdfff < v) :
    ∃ low high, first (UInt8.ofNat (v / 4096 % 0x10 + 0xe0)) = .start ⟨v / 4096, 2, low, high⟩ ∧
      low ≤ v / 64 % 0x40 + 0x80 ∧ v / 64 % 0x40 + 0x80 ≤ high := by
  have hbyte : v / 4096 % 0x10 = v / 4096 := Nat.mod_eq_of_lt (by omega)
  rw [hbyte, first, toNat_ofNat_of_lt (by omega)]
  have hnot : ¬v / 4096 + 0xe0 < 0x80 := by omega
  have htwo : ¬v / 4096 + 0xe0 ≤ 0xDF := by omega
  rcases Nat.lt_or_ge v 0x1000 with hzero | hzero
  · have heq : v / 4096 = 0 := by omega
    refine ⟨0xA0, 0xBF, ?_, by omega, by omega⟩
    simp [heq]
  · by_cases hd : v / 4096 = 0xD
    · refine ⟨0x80, 0x9F, ?_, by omega, by omega⟩
      simp [hd]
    · have hned : v / 4096 + 0xe0 ≠ 0xED := by omega
      have hfrom : 0xE1 ≤ v / 4096 + 0xe0 := by omega
      have hto : v / 4096 + 0xe0 ≤ 0xEF := by omega
      refine ⟨0x80, 0xBF, ?_, by omega, by omega⟩
      simp [hnot, htwo, hzero, hned, hfrom, hto]

/-- The second byte is not too low and not too high. -/
theorem first_four {v : ℕ} (hlow : 0xffff < v) (hhigh : v < 0x110000) :
    ∃ low high, first (UInt8.ofNat (v / 262144 % 0x08 + 0xf0)) =
        .start ⟨v / 262144, 3, low, high⟩ ∧
      low ≤ v / 4096 % 0x40 + 0x80 ∧ v / 4096 % 0x40 + 0x80 ≤ high := by
  have hbyte : v / 262144 % 0x08 = v / 262144 := Nat.mod_eq_of_lt (by omega)
  rw [hbyte, first, toNat_ofNat_of_lt (by omega)]
  have hcases : v / 262144 = 0 ∨ v / 262144 = 1 ∨ v / 262144 = 2 ∨ v / 262144 = 3 ∨
      v / 262144 = 4 := by omega
  rcases hcases with h | h | h | h | h
  · exact ⟨0x90, 0xBF, by simp [h], by omega, by omega⟩
  · exact ⟨0x80, 0xBF, by simp [h], by omega, by omega⟩
  · exact ⟨0x80, 0xBF, by simp [h], by omega, by omega⟩
  · exact ⟨0x80, 0xBF, by simp [h], by omega, by omega⟩
  · exact ⟨0x80, 0x8F, by simp [h], by omega, by omega⟩

/-! ## Characters -/

/-- The bytes of a character are read as the character. -/
theorem decodeFrom_encodeChar (c : Char) (rest : List UInt8) :
    decodeFrom none (String.utf8EncodeChar c ++ rest) = some c :: decodeFrom none rest := by
  have hval : c.val.toNat = c.toNat := rfl
  have hchar : c.toNat < 0xd800 ∨ 0xdfff < c.toNat ∧ c.toNat < 0x110000 := c.valid
  have hself : ∀ n : ℕ, n = c.toNat → Char.ofNat n = c := fun n hn => by
    rw [hn, Char.ofNat_toNat]
  rw [String.utf8EncodeChar]
  simp only [hval]
  split
  · rename_i hone
    rw [List.cons_append, List.nil_append, decodeFrom_whole (first_one hone), hself _ rfl]
  · rename_i hone
    split
    · rename_i htwo
      rw [List.cons_append, decodeFrom_start (first_two (by omega) htwo), List.cons_append,
        List.nil_append, decodeFrom_last _ (by omega) (by omega), hself _ (by omega)]
    · rename_i htwo
      split
      · rename_i hthree
        obtain ⟨low, high, hfirst, hfrom, hto⟩ :=
          first_three (v := c.toNat) (by omega) hthree (by omega)
        rw [List.cons_append, decodeFrom_start hfirst, List.cons_append,
          decodeFrom_next _ hfrom hto, List.cons_append, List.nil_append,
          decodeFrom_last _ (by omega) (by omega), hself _ (by omega)]
      · obtain ⟨low, high, hfirst, hfrom, hto⟩ :=
          first_four (v := c.toNat) (by omega) (by omega)
        rw [List.cons_append, decodeFrom_start hfirst, List.cons_append,
          decodeFrom_next _ hfrom hto, List.cons_append,
          decodeFrom_next _ (by omega) (by omega), List.cons_append, List.nil_append,
          decodeFrom_last _ (by omega) (by omega), hself _ (by omega)]

theorem toList_loop_eq (bytes : ByteArray) (i : ℕ) (r : List UInt8) :
    ByteArray.toList.loop bytes i r = r.reverse ++ bytes.data.toList.drop i := by
  fun_induction ByteArray.toList.loop bytes i r with
  | case1 i r hlt ih =>
    have hlength : i < bytes.data.toList.length := by simpa using hlt
    have hget : bytes.get! i = bytes.data.toList[i] := by
      rw [show bytes.get! i = bytes.data[i]! from rfl, getElem!_pos bytes.data i hlt,
        Array.getElem_toList]
    rw [ih, hget, List.reverse_cons, List.append_assoc, List.singleton_append,
      ← List.drop_eq_getElem_cons hlength]
  | case2 i r hge =>
    rw [List.drop_eq_nil_of_le (Nat.le_of_not_lt hge), List.append_nil]

/-- The bytes one by one are the bytes. -/
theorem toList_eq_data (bytes : ByteArray) : bytes.toList = bytes.data.toList := by
  rw [ByteArray.toList, toList_loop_eq]
  rfl

theorem decodeFrom_encode (cs : List Char) :
    decodeFrom none (cs.flatMap String.utf8EncodeChar) = cs.map some := by
  induction cs with
  | nil => rfl
  | cons c cs ih => rw [List.flatMap_cons, decodeFrom_encodeChar, ih, List.map_cons]

/-- A text is read back from its bytes. -/
theorem decode_toUTF8 (s : String) : decode s.toUTF8 = s.toList.map some := by
  have hbytes : s.toUTF8.toList = s.toList.flatMap String.utf8EncodeChar := by
    rw [String.toUTF8_eq_toByteArray, ← String.utf8Encode_toList, toList_eq_data,
      List.utf8Encode, List.data_toByteArray]
  rw [decode, hbytes, decodeFrom_encode]

end FilmCatalog.Text.Utf8
