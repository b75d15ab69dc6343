/-!
# Errors

Three layers report errors. The domain refuses values that break its rules,
the store reports what went wrong with a record or with the database, and a
service passes both on as one of three kinds. Only the first two kinds are
shown to a client with their text; internal errors share one.

Key definitions: `DomainError`, `StoreError`, `ServiceError`,
`ServiceError.ofStore`, `ServiceError.publicMessage`.
-/

namespace FilmCatalog

/-- A value that breaks a rule of the domain. -/
inductive DomainError where
  | validation (message : String)
  | invalidFilter (field reason : String)
  | invariant (message : String)
  deriving DecidableEq, Repr

/-- The text of a domain error. -/
def DomainError.message : DomainError → String
  | .validation m => "domain validation failed: " ++ m
  | .invalidFilter field reason => "invalid filter field `" ++ field ++ "`: " ++ reason
  | .invariant m => "domain invariant violated: " ++ m

/-- The name of the kind of a domain error. -/
def DomainError.kindName : DomainError → String
  | .validation _ => "Validation"
  | .invalidFilter _ _ => "InvalidFilter"
  | .invariant _ => "Invariant"

/-- What went wrong in a store. -/
inductive StoreError where
  | persistence (text : String)
  | duplicate (constraint : String)
  | notFound
  | invalidInput (text : String)
  | integrity (text : String)
  | timeout
  | unavailable (text : String)
  deriving DecidableEq, Repr

/-- The text of a store error. -/
def StoreError.message : StoreError → String
  | .persistence m => "persistence error: " ++ m
  | .duplicate c => "duplicate record violates unique constraint `" ++ c ++ "`"
  | .notFound => "resource not found"
  | .invalidInput m => "invalid input: " ++ m
  | .integrity m => "integrity error: " ++ m
  | .timeout => "database timeout"
  | .unavailable m => "upstream service unavailable: " ++ m

/-- The name of the kind of a store error. -/
def StoreError.kindName : StoreError → String
  | .persistence _ => "Persistence"
  | .duplicate _ => "Duplicate"
  | .notFound => "NotFound"
  | .invalidInput _ => "InvalidInput"
  | .integrity _ => "Integrity"
  | .timeout => "Timeout"
  | .unavailable _ => "Unavailable"

/-- A failure of a cache backend, which is named. -/
structure CacheFault where
  backend : String
  reason : String
  deriving DecidableEq, Repr

/-- The text of a cache failure. -/
def CacheFault.message (f : CacheFault) : String :=
  "cache backend `" ++ f.backend ++ "` failed: " ++ f.reason

/-- What went wrong in the surroundings of the catalog. -/
inductive InfraError where
  | io (text : String)
  | database (text : String)
  | telemetry (text : String)
  | configuration (text : String)
  | cache (fault : CacheFault)
  deriving DecidableEq, Repr

/-- The text of an error of the surroundings. -/
def InfraError.message : InfraError → String
  | .io m => "io error: " ++ m
  | .database m => "database error: " ++ m
  | .telemetry m => "telemetry initialization failed: " ++ m
  | .configuration m => "configuration error: " ++ m
  | .cache f => f.message

/-- The kinds of service errors. -/
inductive ErrorKind where
  | validation
  | notFound
  | internal
  deriving DecidableEq, Repr

/-- The name of a kind. -/
def ErrorKind.name : ErrorKind → String
  | .validation => "Validation"
  | .notFound => "NotFound"
  | .internal => "Internal"

/-- An error that a service reports. -/
inductive ServiceError where
  | domain (e : DomainError)
  | infra (e : InfraError)
  | notFound
  | validation (text : String)
  | unexpected (text : String)
  deriving DecidableEq, Repr

namespace ServiceError

/-- The text of a service error. -/
def message : ServiceError → String
  | .domain e => e.message
  | .infra e => e.message
  | .notFound => "resource not found"
  | .validation m => "validation failed: " ++ m
  | .unexpected m => "unexpected error: " ++ m

/-- The kind of a service error. -/
def kind : ServiceError → ErrorKind
  | .notFound => .notFound
  | .domain (.validation _) => .validation
  | .domain (.invalidFilter _ _) => .validation
  | .validation _ => .validation
  | .domain (.invariant _) => .internal
  | .infra _ => .internal
  | .unexpected _ => .internal

/-- A store error as a service reports it: the caller's faults keep their
text, the others become unexpected. -/
def ofStore : StoreError → ServiceError
  | .notFound => .notFound
  | .invalidInput m => .validation m
  | .duplicate c => .validation ("duplicate value for `" ++ c ++ "`")
  | e => .unexpected e.message

/-- The text that a client may see. -/
def publicMessage (e : ServiceError) : String :=
  match e.kind with
  | .internal => "internal error"
  | _ => e.message

end ServiceError
end FilmCatalog
