/-!
# Text without terminal controls

What is left of a text that is not written to a terminal. Control characters
are left out unless they are white space, and so are the sequences that begin
with an escape character: a command ends with its first letter, a string for
the terminal with the next escape character. White space inside a command is
kept and breaks it off.

Key definitions: `Text.Plain.Mode`, `Text.plain`.
-/

namespace FilmCatalog.Text

namespace Plain

/-- What a character belongs to. -/
inductive Mode where
  | text
  /-- What follows an escape character. -/
  | escape
  /-- An escape with more characters before its end. -/
  | selector
  /-- A command with parameters. -/
  | command
  /-- A string; the bell ends it if `bell`. -/
  | string (bell : Bool)
  deriving DecidableEq, Repr

/-- Whether a control character is white space. -/
def isSpace (n : Nat) : Bool := n = 0x09 || n = 0x0a || n = 0x0c || n = 0x0d

/-- The mode after a character, and whether the character is kept. -/
def step (m : Mode) (c : Char) : Mode × Bool :=
  let n := c.toNat
  if n = 0x1b then (.escape, false)
  else if n = 0x18 || n = 0x1a then (.text, false)
  else match m with
    | .text => (.text, isSpace n || (0x20 ≤ n && n ≠ 0x7f))
    | .string bell => (if bell && n = 0x07 then .text else m, false)
    | _ =>
      if isSpace n then (.text, true)
      else if n < 0x20 || 0x7f ≤ n then (m, false)
      else match m with
        | .escape =>
          if n < 0x30 then (.selector, false)
          else if c = '[' then (.command, false)
          else if c = ']' then (.string true, false)
          else if c = 'P' || c = 'X' || c = '^' || c = '_' then (.string false, false)
          else (.text, false)
        | .selector => (if n < 0x30 then .selector else .text, false)
        | _ => (if n < 0x40 then .command else .text, false)

/-- The characters that are kept, from a mode on. -/
def kept : Mode → List Char → List Char
  | _, [] => []
  | m, c :: rest =>
    let (next, keep) := step m c
    if keep then c :: kept next rest else kept next rest

end Plain

/-- The text without terminal controls. -/
def plain (s : String) : String := String.ofList (Plain.kept .text s.toList)

end FilmCatalog.Text
