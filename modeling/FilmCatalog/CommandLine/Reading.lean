import FilmCatalog.CommandLine.Synopsis

/-!
# Reading arguments

The arguments of one command are read from left to right. `--name` takes the
next argument as its value unless that begins with a dash; `--name=value`
takes any value. After `--` all arguments are operands. A value is looked at
only when the next option comes or the arguments end, so that what is wrong
with an option's name is reported before what is wrong with an earlier value.

Key definitions: `Token`, `Reading`, `Reading.resolve`, `Reading.scan`,
`Reading.complete`.
-/

namespace FilmCatalog.CommandLine

/-- The forms of an argument. -/
inductive Token where
  /-- Two dashes alone. -/
  | dashes
  | long (name : String) (value : Option String)
  /-- One dash and letters, of which the first is known. -/
  | short (letter : Char)
  | plain
  deriving DecidableEq, Repr

/-- A name and, after the first equals sign, a value. -/
def Token.ofLong (cs : List Char) : Token :=
  match cs.span (· ≠ '=') with
  | (name, _ :: value) => .long (String.ofList name) (some (String.ofList value))
  | (name, []) => .long (String.ofList name) none

/-- The form of an argument. -/
def Token.ofText (s : String) : Token :=
  match s.toList with
  | ['-', '-'] => .dashes
  | '-' :: '-' :: rest => .ofLong rest
  | '-' :: c :: _ => .short c
  | _ => .plain

/-- Whether a word calls a command below. -/
def Synopsis.calls (y : Synopsis) (word : String) : Bool := y.commands.any (·.1 == word)

/-- What was read so far of the arguments of one command. -/
structure Reading where
  /-- The values in the order in which they were given. -/
  given : List (String × Value) := []
  /-- The latest parameter, its value not yet looked at or not yet there. -/
  pending : Option (Parameter × Option String) := none
  deriving DecidableEq, Repr

namespace Reading

/-- Whether a parameter has a value. -/
def has (r : Reading) (name : String) : Bool := r.given.any (·.1 == name)

/-- Gives a parameter a value. -/
def take (r : Reading) (p : Parameter) (s : String) : Except UsageError Reading :=
  if r.has p.name && !p.repeats then .error .repeated
  else (p.kind.read s).map fun v => { r with given := r.given ++ [(p.name, v)] }

/-- Looks at the value of the latest parameter. -/
def resolve (r : Reading) : Except UsageError Reading :=
  match r.pending with
  | none => .ok r
  | some (_, none) => .error .missingValue
  | some (p, some s) => { r with pending := none }.take p s

/-- Reports what was asked for, unless a value before it is wrong. -/
def ask {α : Type} (r : Reading) (e : UsageError) : Except UsageError α :=
  r.resolve >>= fun _ => .error e

/-- Reads `--name` or `--name=value`. -/
def long (y : Synopsis) (r : Reading) (name : String) (value : Option String) :
    Except UsageError Reading :=
  if y.helps && name == "help" then
    if value.isSome then .error .spareValue else r.ask (.help y)
  else if y.versioned && name == "version" then
    if value.isSome then .error .spareValue else r.ask .version
  else
    match y.options.find? (·.name == name) with
    | none => .error .unknownArgument
    | some p => do
      let r ← r.resolve
      match value with
      | some s => r.take p s
      | none => pure { r with pending := some (p, none) }

/-- Reads `-x`. -/
def short {α : Type} (y : Synopsis) (r : Reading) (letter : Char) : Except UsageError α :=
  if y.helps && letter == 'h' then r.ask (.help y)
  else if y.versioned && letter == 'V' then r.ask .version
  else .error .unknownArgument

/-- Reads an operand. -/
def operand (y : Synopsis) (r : Reading) (trailing : Bool) (s : String) :
    Except UsageError Reading :=
  match y.operand with
  | some p =>
    if r.has p.name || r.pending.any (·.1.name == p.name) then .error .unknownArgument
    else do
      let r ← r.resolve
      pure { r with pending := some (p, some s) }
  | none =>
    if y.commands.isEmpty || (trailing && y.calls s) then .error .unknownArgument
    else .error .unknownCommand

/-- Whether the latest option still lacks its value. -/
def awaits (r : Reading) : Bool := r.pending.any fun (_, value) => value.isNone

/-- Reads an argument that begins with no dash. -/
def plain (y : Synopsis) (r : Reading) (s : String) : Except UsageError Reading :=
  match r.pending with
  | some (p, none) => .ok { r with pending := some (p, some s) }
  | _ => r.operand y false s

/-- Reads arguments up to the end or to a word that calls a command below,
which is given with the arguments after it. -/
def scan (y : Synopsis) (trailing : Bool) (r : Reading) :
    List String → Except UsageError (Reading × Option (String × List String))
  | [] => .ok (r, none)
  | s :: rest =>
    if trailing then do scan y true (← r.operand y true s) rest
    else if !r.awaits && y.calls s then .ok (r, some (s, rest))
    else
      match Token.ofText s with
      | .dashes => scan y true r rest
      | .long name value => do scan y false (← r.long y name value) rest
      | .short letter => r.short y letter
      | .plain => do scan y false (← r.plain y s) rest

/-- Reads the variable of a parameter that was not given. -/
def fromVariable (environment : List (String × String)) (r : Reading) (p : Parameter) :
    Except UsageError Reading :=
  match p.variableName.bind (environment.lookup ·) with
  | some s => if r.has p.name then .ok r else r.take p s
  | none => .ok r

/-- The reading at the end of the arguments. -/
def complete (y : Synopsis) (environment : List (String × String)) (r : Reading) :
    Except UsageError Reading := do
  y.options.foldlM (fromVariable environment) (← r.resolve)

/-! ## Values -/

/-- The values of a parameter. -/
def values (r : Reading) (name : String) : List Value :=
  r.given.filterMap fun (other, v) => if other == name then some v else none

/-- The texts of a parameter. -/
def texts (r : Reading) (name : String) : List String :=
  (r.values name).filterMap fun
    | .text s => some s
    | _ => none

/-- The integers of a parameter. -/
def integers (r : Reading) (name : String) : List Int :=
  (r.values name).filterMap fun
    | .integer n => some n
    | _ => none

/-- The numbers of a parameter. -/
def numbers (r : Reading) (name : String) : List Double :=
  (r.values name).filterMap fun
    | .number x => some x
    | _ => none

/-- The switch of a parameter. -/
def switch? (r : Reading) (name : String) : Option Bool :=
  ((r.values name).filterMap fun
    | .switch b => some b
    | _ => none).head?

/-- The text of a parameter. -/
def text? (r : Reading) (name : String) : Option String := (r.texts name).head?

/-- The integer of a parameter. -/
def integer? (r : Reading) (name : String) : Option Int := (r.integers name).head?

/-- The number of a parameter. -/
def number? (r : Reading) (name : String) : Option Double := (r.numbers name).head?

end Reading
end FilmCatalog.CommandLine
