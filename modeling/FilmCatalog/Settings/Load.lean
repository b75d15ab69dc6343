import FilmCatalog.Json.Document
import FilmCatalog.Settings.Files
import FilmCatalog.Settings.Loose

/-!
# Loading settings

Settings are gathered in layers, each over the ones before: the default file,
the local file, the file that the command line names, the environment, and
last what the command line gives itself. The first two files may be missing.
A file is a JSON object, and `.json` at the end of its name may be left out; a
variable belongs to a setting if its name is the marker, the section and the
setting, with two underscores between them, in any case.

Key definitions: `SettingsSources`, `SettingsSources.tree?`, `SettingsSources.load`.
-/

namespace FilmCatalog

/-- Where settings come from besides the command line. -/
structure SettingsSources where
  /-- The texts of the files that exist, by their paths. -/
  file : String → Option String
  environment : List (String × String)

/-- Why there are no settings. -/
inductive SettingsFault where
  /-- A file is missing or is no JSON object, or a value has the wrong type. -/
  | unreadable
  | invalid (e : InvalidSetting)
  deriving DecidableEq, Repr

/-- The text of a fault. -/
def SettingsFault.message : SettingsFault → String
  | .unreadable => "failed to build configuration"
  | .invalid e => e.message

namespace SettingsSources

/-- The name of the default file. -/
def defaultName : String := "config/default"

/-- The name of the local file. -/
def localName : String := "darkroom"

/-- What the names of variables begin with. -/
def marker : String := "darkroom__"

/-- The extension of a file of settings. -/
def extension : String := ".json"

/-- The text of a file by its path, with or without the extension. -/
def find? (s : SettingsSources) (path : String) : Option String :=
  s.file path <|> (withExtension? extension path).bind s.file

/-- Every path at which a file may be looked for. -/
def candidates (chosen : Option String) : List String :=
  (defaultName :: localName :: chosen.toList).flatMap fun path =>
    path :: (withExtension? extension path).toList

/-- The layer of a file's text, which may begin with a byte order mark. -/
def fileLayer? (contents : String) : Option (List (String × Json)) :=
  let cs := match contents.toList with
    | '\uFEFF' :: rest => rest
    | cs => cs
  match Json.ofText? (String.ofList cs) with
  | some (.object members) => some members
  | _ => none

/-- The layer of a file that may be missing. -/
def optionalLayer? (contents : Option String) : Option (List (String × Json)) :=
  match contents with
  | some text => fileLayer? text
  | none => some []

/-- The layer of the file that the command line names, if it names one. -/
def chosenLayer? (s : SettingsSources) : Option String → Option (List (String × Json))
  | some name => (s.find? name).bind fileLayer?
  | none => some []

/-- The small form of a letter in the name of a variable. Of the letters beyond
ASCII only the Kelvin sign has its small form within ASCII, where the names of
all settings are. -/
def smallLetter (c : Char) : Char := if c = '\u212a' then 'k' else c.toLower

/-- The path of a variable, if it belongs to a setting. -/
def variablePath? (name : String) : Option String :=
  let name := String.ofList (name.toList.map smallLetter)
  if name.startsWith marker then
    some (".".intercalate (String.ofList (name.toList.drop marker.length) |>.splitOn "__"))
  else none

/-- The layer of the environment. -/
def environmentLayer (s : SettingsSources) : List (String × Json) :=
  s.environment.filterMap fun (name, value) =>
    (variablePath? name).map fun path => (path, .text value)

/-- All layers but the last, each over the ones before. -/
def tree? (s : SettingsSources) (chosen : Option String) : Option Json := do
  let layers := [← optionalLayer? (s.find? defaultName), ← optionalLayer? (s.find? localName),
    ← s.chosenLayer? chosen, s.environmentLayer]
  pure (layers.foldl Json.withLayer (.object []))

/-- The settings, with the file that the command line names and what it gives. -/
def load (s : SettingsSources) (chosen : Option String) (o : Overrides) :
    Except SettingsFault Settings :=
  match (s.tree? chosen).bind SettingsDraft.ofTree? with
  | none => .error .unreadable
  | some draft => (draft.overridden o).resolve.mapError .invalid

end SettingsSources
end FilmCatalog
