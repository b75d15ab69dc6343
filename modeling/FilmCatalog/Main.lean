import FilmCatalog.CommandLine.Run
import FilmCatalog.Text.Utf8

/-!
# The program

Gathers what a run finds around it and carries the run out. Variables are
looked up under the names of the settings in capitals. No link to a database
server is built in, so that every command that needs one ends with an error.

Key definitions: `main`.
-/

namespace FilmCatalog.CommandLine

/-- The variables that a run may read. -/
def variableNames : List String :=
  let group (name : String) (settings : List String) : List String :=
    settings.map fun s => "DARKROOM__" ++ name ++ "__" ++ s
  ["DATABASE_URL", "DARKROOM_CONFIG_FILE"] ++ group "LOGGING" ["LEVEL", "JSON"] ++
    group "DATABASE" ["URL", "MAX_CONNECTIONS"] ++
    group "CACHE" ["BACKEND", "REDIS_URL", "MEMORY_CAPACITY", "POSTS_TTL_SECS",
      "AUTHORS_TTL_SECS", "SIMILAR_TTL_SECS", "SIMILAR_IDS_TTL_SECS", "WRITE_TIMEOUT_MS",
      "WRITEBACK_WORKERS", "WRITEBACK_QUEUE"] ++
    group "PAGINATION" ["DEFAULT_PAGE_SIZE", "MAX_PAGE_SIZE", "DEFAULT_SIMILAR", "MAX_SIMILAR"]

/-- The variables that are set. -/
def readEnvironment : IO (List (String × String)) :=
  variableNames.filterMapM fun (name : String) => do
    return (← IO.getEnv name).map (name, ·)

/-- The texts of the files that can be read. -/
def readFiles (names : List String) : IO (List (String × String)) :=
  names.filterMapM fun (name : String) => do
    try
      let bytes ← IO.FS.readBinFile name
      return some (name, Text.Utf8.lossy bytes)
    catch _ => return none

/-- What a run with some arguments finds around it. -/
def readSurroundings (args : List String) : IO (Surroundings IO) := do
  let environment ← readEnvironment
  let chosen := match Invocation.read environment args with
    | .ok i => i.configFile
    | .error _ => none
  let files ← readFiles (SettingsSources.candidates chosen)
  let place ← IO.rand 0 (randomSeeds.length - 1)
  return {
    sources := ⟨fun name => files.lookup name, environment⟩
    connect := fun _ _ => return .error "no link to a database server is built in"
    seed := randomSeeds.getD place firstSeed }

end FilmCatalog.CommandLine

/-- Runs the program with its arguments. -/
def main (args : List String) : IO UInt32 := do
  let surroundings ← FilmCatalog.CommandLine.readSurroundings args
  let outcome ← surroundings.run args
  IO.print outcome.output
  IO.eprint outcome.complaint
  return outcome.exitCode.toUInt32
