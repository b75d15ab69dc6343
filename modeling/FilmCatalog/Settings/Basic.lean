import FilmCatalog.Cache.Config
import FilmCatalog.Catalog.Service

/-!
# Settings

What a run of the catalog is configured with: how much is logged, where the
database is, the caches and the page limits. A setting that is refused is
reported with its name and the rule that it breaks.

Key definitions: `LogLevel`, `LogLevel.ofText?`, `Settings`, `InvalidSetting`.
-/

namespace FilmCatalog

/-- How much is logged. -/
inductive LogLevel where
  | off
  | error
  | warn
  | info
  | debug
  | trace
  deriving DecidableEq, Repr

namespace LogLevel

/-- The levels, from none to all. -/
def all : List LogLevel := [.off, .error, .warn, .info, .debug, .trace]

/-- The name of a level. -/
def name : LogLevel → String
  | .off => "off"
  | .error => "error"
  | .warn => "warn"
  | .info => "info"
  | .debug => "debug"
  | .trace => "trace"

/-- The level of a number from 0 to 5 or of a name in any case. An empty text
is the level of errors. -/
def ofText? (s : String) : Option LogLevel :=
  match naturalOfText? s with
  | some n => all[n]?
  | none => if s.isEmpty then some .error else all.find? fun l => l.name == Text.lower s

end LogLevel

/-- The settings of a run. -/
structure Settings where
  level : LogLevel
  /-- Whether logs are written in JSON. -/
  json : Bool
  databaseUrl : Option String
  maxConnections : Nat
  cache : CacheConfig
  limits : PageLimits
  deriving DecidableEq, Repr

/-- The rules that a setting may break. -/
inductive SettingFault where
  | unknownLevel
  | unknownBackend (reason : String)
  | urlRequired
  | notPositive
  | tooLarge
  | aboveMaximum (maximum : String)
  deriving DecidableEq, Repr

/-- What is wrong with a setting. -/
def SettingFault.reason : SettingFault → String
  | .unknownLevel =>
    "failed to parse: error parsing level filter: expected one of \"off\", \"error\", \"warn\", " ++
      "\"info\", \"debug\", \"trace\", or a number 0-5"
  | .unknownBackend reason => reason
  | .urlRequired => "required when cache.backend is redis"
  | .notPositive => "must be greater than zero"
  | .tooLarge => "value exceeds supported range for u32"
  | .aboveMaximum maximum => "must not exceed " ++ maximum

/-- A setting that is refused. -/
structure InvalidSetting where
  key : String
  fault : SettingFault
  deriving DecidableEq, Repr

/-- The text of a refusal. -/
def InvalidSetting.message (e : InvalidSetting) : String :=
  "invalid configuration for `" ++ e.key ++ "`: " ++ e.fault.reason

end FilmCatalog
