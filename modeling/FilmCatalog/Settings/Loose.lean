import FilmCatalog.Settings.Draft
import FilmCatalog.Settings.Tree

/-!
# Settings from trees

Values of settings are taken loosely: numbers, switches and texts stand for
one another where that makes sense, since a variable of the environment is
always a text. Null counts as missing. A section is an object or an array of
its first settings in order; what it does not know it ignores.

Key definitions: `Json.looseNatural?`, `Json.looseSwitch?`, `Json.looseText?`,
`SettingsDraft.ofTree?`.
-/

namespace FilmCatalog
namespace Json

/-- What a switch in words says. -/
def switchOfWord? (s : String) : Option Bool :=
  match Text.lower s with
  | "true" => some true
  | "on" => some true
  | "yes" => some true
  | "false" => some false
  | "off" => some false
  | "no" => some false
  | _ => none

/-- A natural number below `2 ^ 64`. A double is rounded, a half away from
zero, and brought into the range. -/
def looseNatural? (v : Json) : Option Nat :=
  match v with
  | .int n => if IntRange.longWord.holds n then some n.toNat else none
  | .bool b => some b.toNat
  | .double x => some (min x.roundedInt.toNat Numeral.maxWord)
  | .text s =>
    match switchOfWord? s with
    | some b => some b.toNat
    | none => (naturalOfText? s).filter fun n => IntRange.longWord.holds n
  | _ => none

/-- A natural number below `2 ^ 32`. -/
def looseWord? (v : Json) : Option Nat := v.looseNatural?.filter fun n => IntRange.word.holds n

/-- A switch: numbers are on unless they are zero. -/
def looseSwitch? (v : Json) : Option Bool :=
  match v with
  | .int n => some (n ≠ 0)
  | .bool b => some b
  | .double x => some (!x.isZero)
  | .text s =>
    if s = "1" then some true
    else if s = "0" then some false
    else switchOfWord? s
  | _ => none

/-- A text; numbers and switches as they are written. -/
def looseText? (v : Json) : Option String :=
  match v with
  | .int n => some (toString n)
  | .bool b => some (if b then "true" else "false")
  | .double x => some x.plainText
  | .text s => some s
  | _ => none

end Json

/-- The values of a section by position and name; none if it is no section. -/
def sectionParts : Option Json → Option (Nat → String → Option Json)
  | none => some fun _ _ => none
  | some (.object members) => some fun _ name => members.lookup name
  | some (.array items) => some fun i _ => items[i]?
  | some _ => none

/-- A value that may be missing or null. -/
def optionalPart {α : Type} (f : Json → Option α) : Option Json → Option (Option α)
  | none => some none
  | some .null => some none
  | some v => (f v).map some

/-- The settings of logging. -/
def LoggingDraft.ofSection? (v : Option Json) : Option LoggingDraft := do
  let part ← sectionParts v
  pure {
    level := ← optionalPart Json.looseText? (part 0 "level")
    json := ← optionalPart Json.looseSwitch? (part 1 "json") }

/-- The settings of the database. -/
def DatabaseDraft.ofSection? (v : Option Json) : Option DatabaseDraft := do
  let part ← sectionParts v
  pure {
    url := ← optionalPart Json.looseText? (part 0 "url")
    maxConnections := ← optionalPart Json.looseWord? (part 1 "max_connections") }

/-- The settings of the caches. -/
def CacheDraft.ofSection? (v : Option Json) : Option CacheDraft := do
  let part ← sectionParts v
  let natural (i : Nat) (name : String) := optionalPart Json.looseNatural? (part i name)
  pure {
    backend := ← optionalPart Json.looseText? (part 0 "backend")
    redisUrl := ← optionalPart Json.looseText? (part 1 "redis_url")
    memoryCapacity := ← natural 2 "memory_capacity"
    postsTtl := ← natural 3 "posts_ttl_secs"
    authorsTtl := ← natural 4 "authors_ttl_secs"
    similarTtl := ← natural 5 "similar_ttl_secs"
    similarIdsTtl := ← natural 6 "similar_ids_ttl_secs"
    writeTimeout := ← natural 7 "write_timeout_ms"
    workers := ← natural 8 "writeback_workers"
    queue := ← natural 9 "writeback_queue" }

/-- The page limits. -/
def PagesDraft.ofSection? (v : Option Json) : Option PagesDraft := do
  let part ← sectionParts v
  let natural (i : Nat) (name : String) := optionalPart Json.looseNatural? (part i name)
  pure {
    defaultPageSize := ← natural 0 "default_page_size"
    maxPageSize := ← natural 1 "max_page_size"
    defaultSimilar := ← natural 2 "default_similar"
    maxSimilar := ← natural 3 "max_similar" }

/-- The settings given in a tree; none if a value cannot be taken for its setting. -/
def SettingsDraft.ofTree? (tree : Json) : Option SettingsDraft := do
  pure {
    logging := ← LoggingDraft.ofSection? (tree.member? "logging")
    database := ← DatabaseDraft.ofSection? (tree.member? "database")
    cache := ← CacheDraft.ofSection? (tree.member? "cache")
    pages := ← PagesDraft.ofSection? (tree.member? "pagination") }

end FilmCatalog
