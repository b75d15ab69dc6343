import FilmCatalog.CommandLine.Invocation

/-!
# Descriptions of commands

The description of a command says what it does, how it is called, and what it
is given, with the variables that are read for it and what they hold. The
parts of a section are in two columns, or below one another if the columns
would not fit a line.

Key definitions: `Synopsis.usage`, `Synopsis.describe`.
-/

namespace FilmCatalog.CommandLine

/-- `n` spaces. -/
def spaces (n : Nat) : String := String.ofList (List.replicate n ' ')

/-- Two texts with a space between them if neither is empty. -/
def spaced (a b : String) : String :=
  if a.isEmpty then b else if b.isEmpty then a else a ++ " " ++ b

/-- A part of a section: what is described and how. -/
structure Entry where
  head : String
  text : String
  deriving DecidableEq, Repr

namespace Entry

/-- The width of a line. -/
def lineWidth : Nat := 100

/-- How many characters are seen of a text: from a control character on none
is, up to and with the next `m`, where a change of color ends. -/
def seen : Bool → List Char → Nat
  | _, [] => 0
  | hidden, c :: rest =>
    if c.toNat < 0x20 || c.toNat = 0x7f then seen true rest
    else if hidden then seen (c != 'm') rest
    else seen false rest + 1

/-- The width of the left column. -/
def column (entries : List Entry) : Nat := entries.foldl (fun n e => max n e.head.length) 2

/-- Whether a section is written in one column: the left column would take
much of the line and some text would not fit beside it. Two spaces stand in
front of either column. -/
def stacked (entries : List Entry) : Bool :=
  let taken := column entries + 4
  taken ≤ lineWidth && 40 < taken &&
    entries.any fun e => lineWidth - taken < seen false e.text.toList

/-- A text whose further lines begin with `n` spaces. -/
def indented (n : Nat) (text : String) : String :=
  ("\n" ++ spaces n).intercalate (text.splitOn "\n")

/-- A section with its title. -/
def render (title : String) (entries : List Entry) : String :=
  let width := column entries
  let line (e : Entry) : String :=
    if stacked entries then "\n  " ++ e.head ++ "\n" ++ spaces 10 ++ indented 10 e.text
    else "\n  " ++ e.head ++ spaces (width + 2 - e.head.length) ++ indented (width + 4) e.text
  title ++ ":" ++ String.join (entries.map line)

end Entry

namespace Parameter

/-- What else is to know about a parameter: its variable and what that holds,
and the values that it takes if they are few. -/
def hints (environment : List (String × String)) (p : Parameter) : String :=
  let held := match p.variableName with
    | some name => "[env: " ++ name ++ "=" ++ (environment.lookup name).getD "" ++ "]"
    | none => ""
  spaced held (if p.kind = .switch then "[possible values: true, false]" else "")

/-- How an operand is called. -/
def operandName (p : Parameter) : String :=
  if p.repeats then "[" ++ p.valueName ++ "]..." else "<" ++ p.valueName ++ ">"

/-- An option in its section. -/
def optionEntry (environment : List (String × String)) (p : Parameter) : Entry :=
  ⟨"    --" ++ p.name ++ " <" ++ p.valueName ++ ">", spaced p.summary (p.hints environment)⟩

end Parameter

namespace Synopsis

/-- How a command is called. -/
def usage (y : Synopsis) : String :=
  let options := if y.helps then "[OPTIONS]" else ""
  let operand := (y.operand.map Parameter.operandName).getD ""
  let command := if y.commands.isEmpty then "" else "<COMMAND>"
  spaced (spaced (spaced y.call options) operand) command

/-- The options of a command, those without values last. -/
def optionEntries (environment : List (String × String)) (y : Synopsis) : List Entry :=
  y.options.map (Parameter.optionEntry environment) ++
    (if y.helps then [⟨"-h, --help", "Print help"⟩] else []) ++
    (if y.versioned then [⟨"-V, --version", "Print version"⟩] else [])

/-- The sections of a description that are not empty. -/
def sections (environment : List (String × String)) (y : Synopsis) : List String :=
  [("Commands", y.commands.map fun (name, summary) => ⟨name, summary⟩),
    ("Arguments", y.operand.toList.map fun p => ⟨p.operandName, p.summary⟩),
    ("Options", y.optionEntries environment)].filterMap fun (title, entries) =>
      if entries.isEmpty then none else some (Entry.render title entries)

/-- The description of a command. -/
def describe (environment : List (String × String)) (y : Synopsis) : String :=
  y.summary ++ "\n\nUsage: " ++ y.usage ++ "\n\n" ++
    "\n\n".intercalate (y.sections environment) ++ "\n"

end Synopsis
end FilmCatalog.CommandLine
