import FilmCatalog.Error

/-!
# Faults of the database

What can go wrong between a store and its database, and what the store makes
of it. A fault that the server reports carries a code of five characters. Few
codes are the caller's doing; all other codes of class 23 mean that stored
data broke a rule, and the rest says nothing about the request.

Key definitions: `ReportedFault`, `DatabaseFault`, `DatabaseFault.toStoreError`.
-/

namespace FilmCatalog

/-- A fault that the server reports for a statement. -/
structure ReportedFault where
  code : String
  message : String
  /-- The constraint that was violated, if the server names it. -/
  constraint : Option String
  deriving DecidableEq, Repr

namespace ReportedFault

/-- A unique constraint was violated. -/
def uniqueViolation : String := "23505"

/-- A referenced row is missing. -/
def foreignKeyViolation : String := "23503"

/-- A text does not denote a value of its type. -/
def invalidText : String := "22P02"

/-- A statement was cancelled, as it is when it takes too long. -/
def queryCanceled : String := "57014"

/-- The first two characters of the codes for violated constraints. -/
def integrityClass : List Char := ['2', '3']

/-- A reported fault as a store error. -/
def toStoreError (f : ReportedFault) : StoreError :=
  if f.code = uniqueViolation then .duplicate (f.constraint.getD "unknown")
  else if f.code = foreignKeyViolation ∨ f.code = invalidText then .invalidInput f.message
  else if f.code = queryCanceled then .timeout
  else if f.code.toList.take 2 = integrityClass then .integrity f.message
  else .persistence f.message

end ReportedFault

/-- What can go wrong between a store and its database. -/
inductive DatabaseFault where
  | rowNotFound
  | poolTimedOut
  | poolClosed
  | workerCrashed
  /-- The connection is configured wrongly. -/
  | configuration (text : String)
  /-- The connection broke. -/
  | io (text : String)
  /-- The connection could not be secured. -/
  | tls (text : String)
  | protocol (text : String)
  | typeNotFound (name : String)
  | columnNotFound (name : String)
  | encode (text : String)
  | decode (text : String)
  | columnDecode (column reason : String)
  | reported (f : ReportedFault)
  /-- Any other fault of the connection or of the client. -/
  | other (text : String)
  deriving DecidableEq, Repr

namespace DatabaseFault

/-- The text of a fault. -/
def message : DatabaseFault → String
  | .rowNotFound => "no rows returned by a query that expected to return at least one row"
  | .poolTimedOut => "pool timed out while waiting for an open connection"
  | .poolClosed => "attempted to acquire a connection on a closed pool"
  | .workerCrashed => "attempted to communicate with a crashed background worker"
  | .configuration m => "error with configuration: " ++ m
  | .io m => "error communicating with database: " ++ m
  | .tls m => "error occurred while attempting to establish a TLS connection: " ++ m
  | .protocol m => "encountered unexpected or invalid data: " ++ m
  | .typeNotFound name => "type named " ++ name ++ " not found"
  | .columnNotFound name => "no column found for name: " ++ name
  | .encode m => "error occurred while encoding a value: " ++ m
  | .decode m => "error occurred while decoding: " ++ m
  | .columnDecode column reason =>
    "error occurred while decoding column " ++ column ++ ": " ++ reason
  | .reported f => f.message
  | .other m => m

/-- A fault as a store error. -/
def toStoreError : DatabaseFault → StoreError
  | .rowNotFound => .notFound
  | .poolTimedOut => .timeout
  | .columnDecode column reason =>
    .integrity ("failed to decode column " ++ column ++ ": " ++ reason)
  | .reported f => f.toStoreError
  | e => .persistence e.message

end DatabaseFault
end FilmCatalog
