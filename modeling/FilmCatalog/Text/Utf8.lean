/-!
# Bytes read as UTF-8

Reading goes on after bytes that belong to no character: each longest start
of a character that is not completed, and each byte that starts none, is
reported once.

Key definitions: `Text.Utf8.decode`, `Text.Utf8.lossy`.
-/

namespace FilmCatalog.Text.Utf8

/-- A character of which some bytes are still owed: what the bytes so far say,
how many are owed, and the range of the next one. -/
structure Open where
  bits : Nat
  owed : Nat
  low : Nat
  high : Nat

/-- What a first byte is: a whole character, the start of one, or neither. -/
inductive First where
  | whole (c : Char)
  | start (o : Open)
  | stray

/-- Reads the first byte of a character. -/
def first (b : UInt8) : First :=
  let n := b.toNat
  if n < 0x80 then .whole (Char.ofNat n)
  else if 0xC2 ≤ n && n ≤ 0xDF then .start ⟨n - 0xC0, 1, 0x80, 0xBF⟩
  else if n = 0xE0 then .start ⟨0, 2, 0xA0, 0xBF⟩
  else if n = 0xED then .start ⟨0xD, 2, 0x80, 0x9F⟩
  else if 0xE1 ≤ n && n ≤ 0xEF then .start ⟨n - 0xE0, 2, 0x80, 0xBF⟩
  else if n = 0xF0 then .start ⟨0, 3, 0x90, 0xBF⟩
  else if 0xF1 ≤ n && n ≤ 0xF3 then .start ⟨n - 0xF0, 3, 0x80, 0xBF⟩
  else if n = 0xF4 then .start ⟨4, 3, 0x80, 0x8F⟩
  else .stray

/-- Reads bytes from within a character or, without one, between characters.
An ill-formed part gives `none`. -/
def decodeFrom : Option Open → List UInt8 → List (Option Char)
  | none, [] => []
  | some _, [] => [none]
  | state, b :: rest =>
    let fresh : List (Option Char) :=
      match first b with
      | .whole c => some c :: decodeFrom none rest
      | .start o => decodeFrom (some o) rest
      | .stray => none :: decodeFrom none rest
    match state with
    | none => fresh
    | some o =>
      if o.low ≤ b.toNat && b.toNat ≤ o.high then
        let bits := o.bits * 64 + b.toNat % 64
        if o.owed ≤ 1 then some (Char.ofNat bits) :: decodeFrom none rest
        else decodeFrom (some ⟨bits, o.owed - 1, 0x80, 0xBF⟩) rest
      else none :: fresh

/-- The characters of a byte string, `none` for each ill-formed part. -/
def decode (bytes : ByteArray) : List (Option Char) := decodeFrom none bytes.toList

/-- The text of a byte string, U+FFFD in place of each ill-formed part. -/
def lossy (bytes : ByteArray) : String :=
  String.ofList ((decode bytes).map (·.getD '\uFFFD'))

end FilmCatalog.Text.Utf8
