import FilmCatalog.Json.Document
import FilmCatalog.Page.Url
import FilmCatalog.Proofs.Text.Utf8
import Mathlib

/-!
# Query strings read back

A query string is read in parts: it is cut at every `&`, each part at its first
`=`, and in both halves a `+` is a space and a percent sign takes the two digits
behind it. No mark of these is left in an encoded text, so names and values are
read as they were written, whatever characters they have.

Key definitions: `Query.bytes`, `Query.readText`, `Query.read`.
Key theorems: `Query.readText_encode`, `Query.read_ofPairs`.
-/

namespace FilmCatalog.Query

open Json.Document (hexValue?)

/-- The byte of two digits of base sixteen. -/
def byteOf? (high low : Char) : Option UInt8 := do
  let a ← hexValue? high
  let b ← hexValue? low
  pure (UInt8.ofNat (a * 16 + b))

/-- The bytes that an encoded text stands for. A percent sign without two digits
stands for itself. -/
def bytes : List Char → List UInt8
  | [] => []
  | '+' :: rest => 0x20 :: bytes rest
  | '%' :: high :: low :: rest =>
    match byteOf? high low with
    | some b => b :: bytes rest
    | none => 0x25 :: bytes (high :: low :: rest)
  | c :: rest => String.utf8EncodeChar c ++ bytes rest

/-- The text that an encoded text stands for. -/
def readText (cs : List Char) : String :=
  String.ofList ((Text.Utf8.decodeFrom none (bytes cs)).map (·.getD '\uFFFD'))

/-- The name and the value of a part. -/
def readPair (cs : List Char) : String × String :=
  (readText (cs.takeWhile (· ≠ '=')), readText ((cs.dropWhile (· ≠ '=')).drop 1))

/-- The names and values of a query string; empty parts say nothing. -/
def read (s : String) : List (String × String) :=
  ((s.toList.splitOn '&').filter (!·.isEmpty)).map readPair

/-! ## Bytes -/

theorem hexValue?_bigHexDigit : ∀ n < 16, hexValue? (bigHexDigit n) = some n := by decide

theorem isPlain_bigHexDigit : ∀ n < 16, isPlain (bigHexDigit n) = true := by decide

theorem div_sixteen_lt (b : UInt8) : b.toNat / 16 < 16 := by
  have hb := b.toNat_lt
  omega

theorem byteOf?_bigHexDigit (b : UInt8) :
    byteOf? (bigHexDigit (b.toNat / 16)) (bigHexDigit (b.toNat % 16)) = some b := by
  rw [byteOf?, hexValue?_bigHexDigit _ (div_sixteen_lt b),
    hexValue?_bigHexDigit _ (Nat.mod_lt _ (by decide))]
  simp only [Option.bind_eq_bind, Option.bind_some, Nat.div_add_mod', UInt8.ofNat_toNat]
  rfl

theorem toNat_ofNat (b : UInt8) : (Char.ofNat b.toNat).toNat = b.toNat := by
  have hb := b.toNat_lt
  have hvalid : b.toNat.isValidChar := .inl (by omega)
  rw [Char.toNat_ofNat, if_pos hvalid]

/-- A byte below 128 is the whole of its character. -/
theorem utf8EncodeChar_ofNat {b : UInt8} (h : b.toNat < 0x80) :
    String.utf8EncodeChar (Char.ofNat b.toNat) = [b] := by
  have hval : (Char.ofNat b.toNat).val.toNat = b.toNat := toNat_ofNat b
  rw [String.utf8EncodeChar]
  simp [hval, Nat.lt_succ_iff.1 h]

/-- What a byte is written as is read as that byte. -/
theorem bytes_encodeByte (b : UInt8) (rest : List Char) :
    bytes (encodeByte b ++ rest) = b :: bytes rest := by
  unfold encodeByte
  dsimp only
  split_ifs with hself hspace
  · -- a plain character is none of the marks
    simp only [Bool.and_eq_true, decide_eq_true_eq] at hself
    obtain ⟨hlt, hplain⟩ := hself
    rw [List.singleton_append, bytes, utf8EncodeChar_ofNat hlt, List.singleton_append]
    · intro hplus
      rw [hplus] at hplain
      exact absurd hplain (by decide)
    · intro _ _ _ hpercent
      rw [hpercent] at hplain
      exact absurd hplain (by decide)
  · have hb : b = 0x20 := by
      rw [← UInt8.toNat_inj, ← toNat_ofNat b, hspace]
      rfl
    rw [List.singleton_append, bytes, hb]
  · rw [List.cons_append, List.cons_append, List.cons_append, List.nil_append, bytes,
      byteOf?_bigHexDigit]

theorem bytes_encode (bs : List UInt8) : bytes (bs.flatMap encodeByte) = bs := by
  induction bs with
  | nil => rfl
  | cons b bs ih => rw [List.flatMap_cons, bytes_encodeByte, ih]

/-- A text is read as it was written. -/
theorem readText_encode (s : String) : readText (encode s).toList = s := by
  have hread : Text.Utf8.decodeFrom none s.toUTF8.toList = s.toList.map some :=
    Text.Utf8.decode_toUTF8 s
  rw [readText, encode, String.toList_ofList, bytes_encode, hread, List.map_map]
  exact (congrArg String.ofList (List.map_id _)).trans String.ofList_toList

/-! ## Marks -/

theorem mem_encodeByte {b : UInt8} {c : Char} (h : c ∈ encodeByte b) :
    isPlain c = true ∨ c = '+' ∨ c = '%' := by
  unfold encodeByte at h
  dsimp only at h
  split_ifs at h with hself hspace
  · simp only [Bool.and_eq_true] at hself
    exact .inl (List.mem_singleton.1 h ▸ hself.2)
  · exact .inr (.inl (List.mem_singleton.1 h))
  · simp only [List.mem_cons, List.not_mem_nil, or_false] at h
    rcases h with rfl | rfl | rfl
    · exact .inr (.inr rfl)
    · exact .inl (isPlain_bigHexDigit _ (div_sixteen_lt b))
    · exact .inl (isPlain_bigHexDigit _ (Nat.mod_lt _ (by decide)))

/-- The marks between names and values are not in an encoded text. -/
theorem marks_not_mem_encode (s : String) : '&' ∉ (encode s).toList ∧ '=' ∉ (encode s).toList := by
  have hmem : ∀ c ∈ (encode s).toList, isPlain c = true ∨ c = '+' ∨ c = '%' := by
    intro c hc
    rw [encode, String.toList_ofList] at hc
    obtain ⟨b, -, hb⟩ := List.mem_flatMap.1 hc
    exact mem_encodeByte hb
  exact ⟨fun h => absurd (hmem _ h) (by decide), fun h => absurd (hmem _ h) (by decide)⟩

/-! ## Parts -/

/-- The characters of a name and a value. -/
def part (pair : String × String) : List Char :=
  (encode pair.1).toList ++ '=' :: (encode pair.2).toList

theorem toList_ofPairs (pairs : List (String × String)) :
    (ofPairs pairs).toList = ['&'].intercalate (pairs.map part) := by
  rw [ofPairs, String.toList_intercalate, List.map_map]
  congr 1
  refine List.map_congr_left fun pair _ => ?_
  simp [part]

theorem readPair_part (pair : String × String) : readPair (part pair) = pair := by
  have hname : ∀ c ∈ (encode pair.1).toList, decide (c ≠ '=') = true := fun c hc =>
    decide_eq_true fun heq => (marks_not_mem_encode pair.1).2 (heq ▸ hc)
  rw [readPair, part, List.takeWhile_append_of_pos hname, List.dropWhile_append_of_pos hname]
  simp [readText_encode]

/-- A query string is read as the names and values that it was written from. -/
theorem read_ofPairs (pairs : List (String × String)) : read (ofPairs pairs) = pairs := by
  rw [read, toList_ofPairs]
  cases pairs with
  | nil => rfl
  | cons pair rest =>
    have hfree : ∀ cs ∈ (pair :: rest).map part, '&' ∉ cs := by
      intro cs hcs
      obtain ⟨p, -, rfl⟩ := List.mem_map.1 hcs
      simp [part, (marks_not_mem_encode p.1).1, (marks_not_mem_encode p.2).1]
    have hfull : ∀ cs ∈ (pair :: rest).map part, (!cs.isEmpty) = true := by
      intro cs hcs
      obtain ⟨p, -, rfl⟩ := List.mem_map.1 hcs
      simp [part]
    rw [List.splitOn_intercalate _ hfree (by simp), List.filter_eq_self.2 hfull, List.map_map]
    exact List.map_id'' readPair_part _

end FilmCatalog.Query
