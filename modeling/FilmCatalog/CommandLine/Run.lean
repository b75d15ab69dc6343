import FilmCatalog.Cache.Posts
import FilmCatalog.Cache.System
import FilmCatalog.Catalog.Service
import FilmCatalog.CommandLine.Help
import FilmCatalog.Database.Posts
import FilmCatalog.Settings.Load
import FilmCatalog.Text.Plain

/-!
# A run of the program

A run reads the command line, loads the settings, connects to the database
and does what it is told, printing what it finds in JSON. Its surroundings are
values and operations in a monad of their own effects. A run that fails ends
with status one and the text that a client may see; one that was called
wrongly ends with status two, and one whose caches cannot be set up breaks
down with status 101.

Key definitions: `Surroundings`, `Outcome`, `RunFault`, `perform`,
`Surroundings.carryOut`, `Surroundings.run`.
-/

namespace FilmCatalog.CommandLine

/-- A database that a run is connected to. -/
structure Database (m : Type → Type) where
  link : Link m
  /-- Brings the schema up to date; gives why it could not. -/
  migrate : m (Option String)

/-- What a run finds around it. -/
structure Surroundings (m : Type → Type) where
  sources : SettingsSources
  /-- Connects to a database by its address, with at most so many connections. -/
  connect : String → Nat → m (Except String (Database m))
  /-- The seed for a random order that comes without. -/
  seed : Int

/-- How a run ended. -/
structure Outcome where
  exitCode : Nat
  /-- What it printed. -/
  output : String := ""
  /-- What it complained of. -/
  complaint : String := ""
  deriving DecidableEq, Repr

/-- Why a run does not do what it was told. -/
inductive RunFault where
  | failed (e : ServiceError)
  /-- It breaks down. -/
  | broken
  deriving DecidableEq, Repr

/-- The outcome of a run that does not do what it was told. -/
def RunFault.outcome : RunFault → Outcome
  | .failed e => { exitCode := 1, complaint := "error: " ++ e.publicMessage ++ "\n" }
  | .broken => { exitCode := 101 }

/-- The version of the program. -/
def versionText : String := programName ++ " 0.1.0\n"

/-- The outcome of a command line that is not carried out. -/
def UsageError.outcome (environment : List (String × String)) (e : UsageError) : Outcome :=
  match e with
  | .help y => { exitCode := e.exitCode, output := Text.plain (y.describe environment) }
  | .version => { exitCode := e.exitCode, output := versionText }
  | .nothingGiven =>
    { exitCode := e.exitCode, complaint := Text.plain (programSynopsis.describe environment) }
  | _ => { exitCode := e.exitCode, complaint := "Usage: " ++ programSynopsis.usage ++ "\n" }

/-- A value as it is printed. -/
def printed (v : Json) : String := v.pretty ++ "\n"

variable {m : Type → Type} [Monad m]

/-- Does what is to be done with a catalog; gives what is printed. -/
def perform (catalog : Catalog m) (seed : Int) : Action → ExceptT ServiceError m String
  | .migrate => pure ""
  | .ids => do
    let ids ← catalog.allIds
    pure (printed (Json.ofList .int ids))
  | .find sort params => do
    let params ← Catalog.ofDomain ((params.withSort sort).mapError FilterFault.toError)
    let filter ←
      Catalog.ofDomain ((PostFilter.build (fun _ => seed) params).mapError FilterFault.toError)
    let page ← catalog.findPosts filter
    pure (printed page.toJson)
  | .delete id => do
    catalog.deletePost id
    pure ""
  | .keywords limit => do
    let words ← catalog.keywordSummary limit
    pure (printed (Json.ofList KeywordSummary.toJson words))
  | .authors => do
    let authors ← catalog.authors
    pure (printed (Json.ofList .text authors))

namespace Surroundings

/-- The settings of a run. -/
def settings (s : Surroundings m) (i : Invocation) : Except ServiceError Settings :=
  (s.sources.load i.configFile i.overrides).mapError fun e =>
    .unexpected ("failed to load configuration: " ++ e.message)

/-- Connects to the database of the settings. -/
def database (s : Surroundings m) (settings : Settings) : ExceptT ServiceError m (Database m) :=
  match settings.databaseUrl with
  | none => throw (.infra (.configuration "database url is not configured"))
  | some url => ExceptT.mk do
    let connected ← s.connect url settings.maxConnections
    pure (connected.mapError fun reason => .infra (.database reason))

/-- The caches of a run; only those in memory are built in. Their table has to
be one that can be laid out, and so has their queue. -/
def caches (settings : Settings) : Except RunFault CacheSystem :=
  let c := settings.cache
  match c.backend with
  | .memory =>
    if c.capacityFloor ≤ MemoryStore.largest ∧ c.queueFloor ≤ Pool.longest then
      .ok (.start c.capacityFloor c.workersFloor c.queueFloor c.writeTimeout)
    else .error .broken
  | .redis => .error (.failed (.infra (.configuration
      "cache backend `redis` requires building with the `redis` feature")))

/-- A catalog over a database, its listings read through caches. -/
def catalog (database : Database m) (settings : Settings) :
    Catalog (StateT CacheSystem m) where
  reader := database.link.lifted.reader.cached CacheSystem.layer settings.cache
  writer := database.link.lifted.writer
  similarity := none
  limits := settings.limits

/-- Carries out an invocation; gives what is printed. -/
def carryOut (s : Surroundings m) (i : Invocation) : ExceptT RunFault m String := do
  let settings ← ExceptT.mk (pure ((s.settings i).mapError .failed))
  let database ← (s.database settings).adapt .failed
  match i.action with
  | .migrate => ExceptT.mk do
    let fault ← database.migrate
    pure (fault.elim (.ok "") fun reason => .error (.failed (.infra (.database reason))))
  | action => do
    let cache ← ExceptT.mk (pure (caches settings))
    ExceptT.adapt .failed <|
      ExceptT.mk ((perform (catalog database settings) s.seed action).run.run' cache)

/-- Runs the program with its arguments. -/
def run (s : Surroundings m) (args : List String) : m Outcome := do
  match Invocation.read s.sources.environment args with
  | .error e => pure (e.outcome s.sources.environment)
  | .ok i =>
    match ← (s.carryOut i).run with
    | .ok output => pure { exitCode := 0, output := output }
    | .error e => pure e.outcome

end Surroundings
end FilmCatalog.CommandLine
