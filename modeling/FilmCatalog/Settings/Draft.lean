import FilmCatalog.Settings.Basic

/-!
# Settings as given

A draft holds the settings that were given, each of the right type but
otherwise unchecked. It becomes settings when the missing ones got their
defaults and all kept the rules: sizes and times to live are positive, page
sizes fit 32 bits and a default is at most its maximum. The first broken rule
is reported, in the order of the sections and of the settings in them.

Key definitions: `SettingsDraft`, `Overrides`, `SettingsDraft.overridden`,
`SettingsDraft.resolve`.
-/

namespace FilmCatalog

/-- The settings of logging as given. -/
structure LoggingDraft where
  level : Option String := none
  json : Option Bool := none
  deriving DecidableEq, Repr

/-- The settings of the database as given. -/
structure DatabaseDraft where
  url : Option String := none
  maxConnections : Option Nat := none
  deriving DecidableEq, Repr

/-- The settings of the caches as given. -/
structure CacheDraft where
  backend : Option String := none
  redisUrl : Option String := none
  memoryCapacity : Option Nat := none
  postsTtl : Option Nat := none
  authorsTtl : Option Nat := none
  similarTtl : Option Nat := none
  similarIdsTtl : Option Nat := none
  writeTimeout : Option Nat := none
  workers : Option Nat := none
  queue : Option Nat := none
  deriving DecidableEq, Repr

/-- The page limits as given. -/
structure PagesDraft where
  defaultPageSize : Option Nat := none
  maxPageSize : Option Nat := none
  defaultSimilar : Option Nat := none
  maxSimilar : Option Nat := none
  deriving DecidableEq, Repr

/-- Settings as given, in their four sections. -/
structure SettingsDraft where
  logging : LoggingDraft := {}
  database : DatabaseDraft := {}
  cache : CacheDraft := {}
  pages : PagesDraft := {}
  deriving DecidableEq, Repr

/-- Settings given on the command line. -/
structure Overrides where
  databaseUrl : Option String := none
  maxConnections : Option Nat := none
  level : Option String := none
  json : Option Bool := none
  backend : Option String := none
  deriving DecidableEq, Repr

/-- A draft with what the command line gives in place of what it had. -/
def SettingsDraft.overridden (d : SettingsDraft) (o : Overrides) : SettingsDraft where
  logging := { level := o.level <|> d.logging.level, json := o.json <|> d.logging.json }
  database := {
    url := o.databaseUrl <|> d.database.url
    maxConnections := o.maxConnections <|> d.database.maxConnections }
  cache := { d.cache with backend := o.backend <|> d.cache.backend }
  pages := d.pages

/-! ## Rules -/

/-- A number that must not be zero. -/
def positive (key : String) (n : Nat) : Except InvalidSetting Nat :=
  if n = 0 then .error ⟨key, .notPositive⟩ else .ok n

/-- A number that must not be zero and must fit 32 bits. -/
def positiveWord (key : String) (n : Nat) : Except InvalidSetting Nat :=
  if n = 0 then .error ⟨key, .notPositive⟩
  else if IntRange.word.holds n then .ok n
  else .error ⟨key, .tooLarge⟩

/-- A default size and its maximum. -/
def sizePair (key maxKey : String) (size maximum : Nat) : Except InvalidSetting (Nat × Nat) := do
  let size ← positiveWord key size
  let maximum ← positiveWord maxKey maximum
  if maximum < size then throw ⟨key, .aboveMaximum maxKey⟩
  pure (size, maximum)

namespace LoggingDraft

/-- The level of logging. -/
def resolveLevel (d : LoggingDraft) : Except InvalidSetting LogLevel :=
  match d.level with
  | none => .ok .info
  | some s =>
    match LogLevel.ofText? s with
    | some level => .ok level
    | none => .error ⟨"logging.level", .unknownLevel⟩

end LoggingDraft

namespace DatabaseDraft

/-- How many connections there may be if it is not said. -/
def defaultConnections : Nat := 8

/-- How many connections there may be. -/
def resolveConnections (d : DatabaseDraft) : Except InvalidSetting Nat :=
  positiveWord "database.max_connections" (d.maxConnections.getD defaultConnections)

end DatabaseDraft

namespace CacheDraft

/-- The backend of the caches. -/
def resolveBackend (d : CacheDraft) : Except InvalidSetting BackendKind :=
  match d.backend with
  | none => .ok .memory
  | some s =>
    match BackendKind.ofText s with
    | .ok kind => .ok kind
    | .error reason => .error ⟨"cache.backend", .unknownBackend reason⟩

/-- The address of a backend that needs one; a blank one counts as missing. -/
def resolveUrl (d : CacheDraft) (backend : BackendKind) :
    Except InvalidSetting (Option String) :=
  match backend, d.redisUrl.bind Text.nonBlank? with
  | .redis, none => .error ⟨"cache.redis_url", .urlRequired⟩
  | _, url => .ok url

/-- The settings of the caches. -/
def resolve (d : CacheDraft) : Except InvalidSetting CacheConfig := do
  let known : CacheConfig := {}
  let backend ← d.resolveBackend
  let redisUrl ← d.resolveUrl backend
  let writeTimeout ← positive "cache.write_timeout_ms" (d.writeTimeout.getD known.writeTimeout)
  let memoryCapacity ←
    positive "cache.memory_capacity" (d.memoryCapacity.getD known.memoryCapacity)
  let postsTtl ← positive "cache.posts_ttl_secs" (d.postsTtl.getD known.postsTtl)
  let authorsTtl ← positive "cache.authors_ttl_secs" (d.authorsTtl.getD known.authorsTtl)
  let similarTtl ← positive "cache.similar_ttl_secs" (d.similarTtl.getD known.similarTtl)
  let similarIdsTtl ←
    positive "cache.similar_ids_ttl_secs" (d.similarIdsTtl.getD known.similarIdsTtl)
  let workers ← positive "cache.writeback_workers" (d.workers.getD known.workers)
  let queue ← positive "cache.writeback_queue" (d.queue.getD known.queue)
  pure ⟨backend, redisUrl, memoryCapacity, postsTtl, authorsTtl, similarTtl, similarIdsTtl,
    writeTimeout, workers, queue⟩

end CacheDraft

namespace PagesDraft

/-- The page limits. -/
def resolve (d : PagesDraft) : Except InvalidSetting PageLimits := do
  let known : PageLimits := {}
  let (page, maxPage) ← sizePair "pagination.default_page_size" "pagination.max_page_size"
    (d.defaultPageSize.getD known.defaultPageSize.toNat)
    (d.maxPageSize.getD known.maxPageSize.toNat)
  let (similar, maxSimilar) ← sizePair "pagination.default_similar" "pagination.max_similar"
    (d.defaultSimilar.getD known.defaultSimilar.toNat)
    (d.maxSimilar.getD known.maxSimilar.toNat)
  pure ⟨page, maxPage, similar, maxSimilar⟩

end PagesDraft

/-- The settings of a draft, or the first rule that it breaks. -/
def SettingsDraft.resolve (d : SettingsDraft) : Except InvalidSetting Settings := do
  let level ← d.logging.resolveLevel
  let maxConnections ← d.database.resolveConnections
  let cache ← d.cache.resolve
  let limits ← d.pages.resolve
  pure {
    level := level
    json := d.logging.json.getD false
    databaseUrl := d.database.url.bind Text.nonBlank?
    maxConnections := maxConnections
    cache := cache
    limits := limits }

end FilmCatalog
