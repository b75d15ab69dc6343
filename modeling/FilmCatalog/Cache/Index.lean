import FilmCatalog.Text.Utf8

/-!
# Index entries

An index entry lists fingerprints, one after the other with a semicolon
between each two. Bytes that are no text list nothing, and empty parts are
skipped, so every entry can be read.

Key definitions: `IndexEntry.read`, `IndexEntry.write`, `IndexEntry.adding?`.
-/

namespace FilmCatalog.IndexEntry

/-- The character between two fingerprints. -/
def separator : Char := ';'

/-- The parts of a text around its separators. -/
def parts : List Char → List (List Char)
  | [] => [[]]
  | c :: rest =>
    if c = separator then [] :: parts rest
    else
      match parts rest with
      | p :: ps => (c :: p) :: ps
      | [] => [[c]]

/-- The fingerprints of an entry. -/
def read (bytes : ByteArray) : List String :=
  match String.fromUTF8? bytes with
  | some s => ((parts s.toList).filter fun p => !p.isEmpty).map String.ofList
  | none => []

/-- The entry of fingerprints. -/
def write (fingerprints : List String) : ByteArray :=
  (String.singleton separator |>.intercalate fingerprints).toUTF8

/-- The entry with a fingerprint at its end, unless it has it already. -/
def adding? (bytes : ByteArray) (fingerprint : String) : Option ByteArray :=
  let listed := read bytes
  if listed.contains fingerprint then none else some (write (listed ++ [fingerprint]))

end FilmCatalog.IndexEntry
