import FilmCatalog.Number.Numeral
import FilmCatalog.Text.Blank

/-!
# What a command accepts

A synopsis names the options of a command, what it is applied to, and the
commands below it. An option has one value of a given kind; it may be given
once unless it repeats, and may be read from a variable of the environment
when it is not given.

Key definitions: `ValueKind`, `Value`, `Parameter`, `Synopsis`, `UsageError`,
`ValueKind.read`.
-/

namespace FilmCatalog.CommandLine

/-- What the text of a value has to be. -/
inductive ValueKind where
  | text
  /-- A text that is not empty. -/
  | path
  /-- An integer in a range. -/
  | integer (range : IntRange)
  | number
  | switch
  deriving DecidableEq, Repr

/-- A value. -/
inductive Value where
  | text (s : String)
  | integer (n : Int)
  | number (x : Double)
  | switch (b : Bool)
  deriving DecidableEq, Repr

/-- Something that is given a value. -/
structure Parameter where
  name : String
  /-- How the value is called in descriptions. -/
  valueName : String
  kind : ValueKind
  summary : String := ""
  /-- The variable that is read if no value is given. -/
  variableName : Option String := none
  repeats : Bool := false
  deriving DecidableEq, Repr

namespace Parameter

/-- A parameter that is given at most once. -/
def single (name valueName : String) (kind : ValueKind) (summary : String := "") : Parameter :=
  ⟨name, valueName, kind, summary, none, false⟩

/-- A parameter that may be given again and again. -/
def repeated (name valueName : String) (kind : ValueKind) (summary : String := "") : Parameter :=
  ⟨name, valueName, kind, summary, none, true⟩

/-- The parameter, read from a variable if it is not given. -/
def orVariable (p : Parameter) (name : String) : Parameter := { p with variableName := some name }

end Parameter

/-- What a command accepts. -/
structure Synopsis where
  /-- The words that call the command. -/
  call : String
  summary : String
  options : List Parameter := []
  operand : Option Parameter := none
  /-- The commands below, with their summaries. -/
  commands : List (String × String) := []
  /-- Whether a description can be asked for. -/
  helps : Bool := true
  /-- Whether the version can be asked for. -/
  versioned : Bool := false
  deriving DecidableEq, Repr

/-- Why a command line is not carried out. The first two are asked for. -/
inductive UsageError where
  | help (of : Synopsis)
  | version
  /-- Neither a command nor anything else was given. -/
  | nothingGiven
  | missingCommand
  | unknownCommand
  | unknownArgument
  | repeated
  | missingOperand
  | missingValue
  | invalidValue
  | spareValue
  deriving DecidableEq, Repr

/-- The status with which the program ends. -/
def UsageError.exitCode : UsageError → Nat
  | .help _ => 0
  | .version => 0
  | _ => 2

/-- What a switch says, in any case. -/
def switchOfText? (s : String) : Option Bool :=
  let word := Text.lower s
  if ["y", "yes", "t", "true", "on", "1"].contains word then some true
  else if ["n", "no", "f", "false", "off", "0"].contains word then some false
  else none

/-- A value, or that its text is not of the kind. -/
def orInvalid {α : Type} (f : α → Value) : Option α → Except UsageError Value
  | some a => .ok (f a)
  | none => .error .invalidValue

/-- The value of a text. -/
def ValueKind.read (k : ValueKind) (s : String) : Except UsageError Value :=
  match k with
  | .text => .ok (.text s)
  | .path => if s.isEmpty then .error .missingValue else .ok (.text s)
  | .integer range => orInvalid .integer ((integerOfText? s).bind range.check?)
  | .number => orInvalid .number (Double.ofText? s)
  | .switch => orInvalid .switch (switchOfText? s)

end FilmCatalog.CommandLine
