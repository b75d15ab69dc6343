import FilmCatalog.CommandLine.Reading
import FilmCatalog.Filter.Build
import FilmCatalog.Settings.Draft

/-!
# Invocations

The commands of the program and what they accept. A command line becomes an
invocation: what is to be done, the settings it overrides and the settings
file it names. The command's own arguments are read to their end before the
program's are completed.

Key definitions: `Verb`, `Verb.synopsis`, `Action`, `Invocation`, `Invocation.read`.
Key theorems: `Verb.verb_action`, `Invocation.scan_of_read`.
-/

namespace FilmCatalog.CommandLine

/-- The commands. -/
inductive Verb where
  | migrate
  | ids
  | find
  | delete
  | keywords
  | authors
  deriving DecidableEq, Repr

/-- What is to be done. -/
inductive Action where
  | migrate
  | ids
  /-- A page of posts; the order is still in words. -/
  | find (sort : Option String) (params : FilterParams)
  | delete (id : Int)
  | keywords (limit : Option Int)
  | authors
  deriving DecidableEq, Repr

/-- A command line that was understood. -/
structure Invocation where
  configFile : Option String
  action : Action
  overrides : Overrides
  deriving DecidableEq, Repr

namespace Verb

/-- The commands in the order of the description. -/
def all : List Verb := [.migrate, .ids, .find, .delete, .keywords, .authors]

/-- The word that calls a command. -/
def name : Verb → String
  | .migrate => "migrate"
  | .ids => "ids"
  | .find => "find"
  | .delete => "delete"
  | .keywords => "keywords"
  | .authors => "authors"

/-- What a command does. -/
def summary : Verb → String
  | .migrate => "Apply pending schema migrations"
  | .ids => "Print every post id in ascending order"
  | .find => "Print one page of posts matching a filter"
  | .delete => "Delete a post by id"
  | .keywords => "Print the most used keywords"
  | .authors => "Print every distinct author"

/-- The options that every command has. -/
def commonOptions : List Parameter :=
  [(Parameter.single "database-url" "URL" .text
      "Override the database connection URL").orVariable "DATABASE_URL",
    .single "database-max-connections" "COUNT" (.integer .word) "Override the database pool size",
    .single "log-level" "LEVEL" .text "Override the log level (trace, debug, info, warn, error)",
    .single "log-json" "BOOL" .switch "Emit logs as JSON",
    .single "cache-backend" "KIND" .text "Override the cache backend (memory or redis)"]

/-- The options of a search. -/
def findOptions : List Parameter :=
  [.single "sort" "SORT" .text "Ordering: latest, top or random",
    .single "page-size" "PAGE_SIZE" (.integer .long),
    .single "page-id" "PAGE_ID" (.integer .long) "Keyset cursor taken from the previous page",
    .single "seed" "SEED" (.integer .long) "Seed for random ordering",
    .single "nsfw" "NSFW" .switch,
    .single "grayscale" "GRAYSCALE" .switch,
    .single "sprocket" "SPROCKET" .switch,
    .repeated "id" "IDS" (.integer .long) "Restrict to these ids; repeatable",
    .single "title" "TITLE" .text,
    .single "author" "AUTHOR" .text,
    .repeated "color" "COLORS" .text
      "Required color name; repeatable, paired with --min-color by position",
    .repeated "min-color" "MIN_COLORS" .number,
    .repeated "keyword" "KEYWORDS" .text "Required keyword; repeatable",
    .single "min-width" "MIN_WIDTH" (.integer .short),
    .single "max-width" "MAX_WIDTH" (.integer .short),
    .single "min-height" "MIN_HEIGHT" (.integer .short),
    .single "max-height" "MAX_HEIGHT" (.integer .short),
    .single "min-aspect-ratio" "MIN_ASPECT_RATIO" .number,
    .single "max-aspect-ratio" "MAX_ASPECT_RATIO" .number]

/-- The options that only one command has. -/
def ownOptions : Verb → List Parameter
  | .find => findOptions
  | .keywords => [.single "limit" "LIMIT" (.integer .long) "Number of keywords to print"]
  | _ => []

/-- What a command is applied to. -/
def operand : Verb → Option Parameter
  | .delete => some (.single "id" "ID" (.integer .long) "Id of the post to delete")
  | _ => none

end Verb

/-- The word that calls the program. -/
def programName : String := "darkroom"

/-- What a command accepts. -/
def Verb.synopsis (v : Verb) : Synopsis where
  call := programName ++ " " ++ v.name
  summary := v.summary
  options := Verb.commonOptions ++ v.ownOptions
  operand := v.operand

/-- What the command that describes others accepts. -/
def helpSynopsis : Synopsis where
  call := programName ++ " help"
  summary := "Print this message or the help of the given subcommand(s)"
  operand := some (.repeated "subcommand" "COMMAND" .text "Print help for the subcommand(s)")
  helps := false

/-- What the program accepts before a command. -/
def programSynopsis : Synopsis where
  call := programName
  summary := "Darkroom photo catalog"
  options := [(Parameter.single "config-file" "PATH" .path
    "Optional path to a configuration file").orVariable "DARKROOM_CONFIG_FILE"]
  commands := Verb.all.map (fun v => (v.name, v.summary)) ++ [("help", helpSynopsis.summary)]
  versioned := true

/-- The filter parameters of a search. -/
def Reading.filterParams (r : Reading) : FilterParams :=
  let ids := r.integers "id"
  { limit := r.integer? "page-size"
    cursor := r.integer? "page-id"
    nsfw := r.switch? "nsfw"
    grayscale := r.switch? "grayscale"
    sprocket := r.switch? "sprocket"
    seed := r.integer? "seed"
    ids := if ids.isEmpty then none else some ids
    title := r.text? "title"
    author := r.text? "author"
    colors := r.texts "color"
    minColorPercents := r.numbers "min-color"
    keywords := r.texts "keyword"
    minWidth := r.integer? "min-width"
    maxWidth := r.integer? "max-width"
    minHeight := r.integer? "min-height"
    maxHeight := r.integer? "max-height"
    minAspectRatio := r.number? "min-aspect-ratio"
    maxAspectRatio := r.number? "max-aspect-ratio" }

/-- The settings that the arguments of a command override. -/
def Reading.overrides (r : Reading) : Overrides where
  databaseUrl := r.text? "database-url"
  maxConnections := (r.integer? "database-max-connections").map Int.toNat
  level := r.text? "log-level"
  json := r.switch? "log-json"
  backend := r.text? "cache-backend"

/-- What a command is to do. -/
def Verb.action (v : Verb) (r : Reading) : Except UsageError Action :=
  match v with
  | .migrate => .ok .migrate
  | .ids => .ok .ids
  | .find => .ok (.find (r.text? "sort") r.filterParams)
  | .delete =>
    match r.integer? "id" with
    | some id => .ok (.delete id)
    | none => .error .missingOperand
  | .keywords => .ok (.keywords (r.integer? "limit"))
  | .authors => .ok .authors

/-- The command of an action. -/
def Action.verb : Action → Verb
  | .migrate => .migrate
  | .ids => .ids
  | .find _ _ => .find
  | .delete _ => .delete
  | .keywords _ => .keywords
  | .authors => .authors

/-- What a command is to do belongs to it. -/
theorem Verb.verb_action {v : Verb} {r : Reading} {a : Action} (h : v.action r = .ok a) :
    a.verb = v := by
  cases v with
  | delete =>
    rw [action] at h
    cases hid : r.integer? "id" with
    | none => rw [hid] at h; cases h
    | some id => rw [hid] at h; cases h; rfl
  | _ => cases h; rfl

/-- What the words after `help` ask for. -/
def helpOn : List String → UsageError
  | [] => .help programSynopsis
  | [word] =>
    if word = "help" then .help helpSynopsis
    else
      match Verb.all.find? (·.name == word) with
      | some v => .help v.synopsis
      | none => .unknownCommand
  | _ => .unknownCommand

/-- Reads the arguments of a command. -/
def Verb.read (v : Verb) (environment : List (String × String)) (args : List String) :
    Except UsageError (Action × Overrides) := do
  let (r, _) ← Reading.scan v.synopsis false {} args
  let r ← r.complete v.synopsis environment
  pure (← v.action r, r.overrides)

theorem Verb.verb_read {v : Verb} {environment : List (String × String)} {args : List String}
    {a : Action} {o : Overrides} (h : v.read environment args = .ok (a, o)) : a.verb = v := by
  rw [Verb.read] at h
  cases hscan : Reading.scan v.synopsis false {} args with
  | error e => rw [hscan] at h; cases h
  | ok scanned =>
    rw [hscan] at h
    simp only [Except.bind, bind, pure, Except.pure] at h
    split at h
    · cases h
    · split at h
      · cases h
      · rename_i haction
        cases h
        exact verb_action haction

/-- Reads a command line. -/
def Invocation.read (environment : List (String × String)) (args : List String) :
    Except UsageError Invocation := do
  let (program, next) ← Reading.scan programSynopsis false {} args
  match next with
  | none => do
    let program ← program.complete programSynopsis environment
    throw (if program.given.isEmpty then .nothingGiven else .missingCommand)
  | some (word, rest) =>
    match Verb.all.find? (·.name == word) with
    | none => throw (helpOn rest)
    | some v => do
      let (action, overrides) ← v.read environment rest
      let program ← program.complete programSynopsis environment
      pure ⟨program.text? "config-file", action, overrides⟩

/-- What is to be done belongs to the command that the command line names. -/
theorem Invocation.scan_of_read {environment : List (String × String)} {args : List String}
    {i : Invocation} (h : Invocation.read environment args = .ok i) :
    ∃ program rest, Reading.scan programSynopsis false {} args =
      .ok (program, some (i.action.verb.name, rest)) := by
  rw [Invocation.read] at h
  cases hscan : Reading.scan programSynopsis false {} args with
  | error e => rw [hscan] at h; cases h
  | ok scanned =>
    obtain ⟨program, next⟩ := scanned
    rw [hscan] at h
    simp only [Except.bind, bind, pure, Except.pure] at h
    split at h
    · split at h <;> cases h
    · rename_i word rest
      split at h
      · cases h
      · rename_i v hv
        split at h
        · cases h
        · rename_i read hread
          split at h
          · cases h
          · cases h
            have hname : v.name = word := by simpa using List.find?_some hv
            exact ⟨program, rest, by rw [Verb.verb_read hread, hname]⟩

end FilmCatalog.CommandLine
