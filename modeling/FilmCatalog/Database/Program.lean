import FilmCatalog.Database.Command
import FilmCatalog.Database.Row

/-!
# Programs

A program sends commands one after the other, each chosen by what the rows
before said, and ends with a value or a store error. A command that the
database does not answer with rows ends the program. A program in a
transaction is committed if it ends with a value, else rolled back; its value
counts only when the commit succeeded.

Programs run over any `Link` to a database: a real one, a scripted one or one
that keeps tables.

Key definitions: `Program`, `Program.run`, `Link.transaction`.
Key theorems: `Program.bind_assoc`.
-/

namespace FilmCatalog

/-- The columns of the rows that answer a command. -/
def Command.columns : Command → List (String × ColumnType)
  | .listing _ => PostRow.columns
  | .authors => [("author", .text)]
  | .keywordSummary _ => [("word", .text), ("weight", .double), ("count", .int)]
  | .postIds => [("id", .int)]
  | .insertPost _ => [("id", .int)]
  | .idOfPermalink _ => [("id", .int)]
  | .lockPost _ => [("id", .int)]
  | .deletePost _ => [("id", .int)]
  | _ => []

/-- Commands one after the other, then a value or an error. -/
inductive Program (α : Type) where
  | done (a : α)
  | fail (e : StoreError)
  | send (c : Command) (next : List Row → Program α)

namespace Program

/-- One program after another. -/
def bind {α β : Type} : Program α → (α → Program β) → Program β
  | .done a, f => f a
  | .fail e, _ => .fail e
  | .send c next, f => .send c fun rows => (next rows).bind f

instance : Monad Program where
  pure := Program.done
  bind := Program.bind

/-- The rows that answer a command. -/
def rows (c : Command) : Program (List Row) := .send c .done

/-- Sends a command whose rows do not matter. -/
def execute (c : Command) : Program Unit := .send c fun _ => .done ()

/-- A result, its error being the program's. -/
def ofStore {α : Type} : Except StoreError α → Program α
  | .ok a => .done a
  | .error e => .fail e

/-- A result of reading rows, its error being the program's. -/
def ofRead {α : Type} : Except DatabaseFault α → Program α
  | .ok a => .done a
  | .error e => .fail e.toStoreError

theorem bind_assoc {α β γ : Type} (p : Program α) (f : α → Program β) (g : β → Program γ) :
    (p.bind f).bind g = p.bind fun a => (f a).bind g := by
  induction p with
  | done a => rfl
  | fail e => rfl
  | send c next ih => simp only [bind, ih]

end Program

/-- What is sent to the database. -/
inductive Request where
  | begin
  | commit
  | rollback
  | run (c : Command)
  deriving DecidableEq, Repr

/-- What comes back: rows, none for most requests, or a fault. -/
abbrev Reply := Except DatabaseFault (List Row)

/-- A link to a database, and the clock of its client in seconds. -/
structure Link (m : Type → Type) where
  send : Request → m Reply
  clock : m Int

/-- Runs a program; a fault ends it. -/
def Program.run {m : Type → Type} [Monad m] {α : Type} (link : Link m) :
    Program α → ExceptT StoreError m α
  | .done a => pure a
  | .fail e => throw e
  | .send c next => do
    match ← link.send (.run c) with
    | .ok rows => (next rows).run link
    | .error e => throw e.toStoreError

namespace Link

variable {m : Type → Type} [Monad m] {α : Type}

/-- The same link for a monad with a state of its own. -/
def lifted {σ : Type} (link : Link m) : Link (StateT σ m) where
  send r := liftM (link.send r)
  clock := liftM link.clock

/-- Ends a transaction after a failure. If that fails as well, the client
rolls back once more; the failure reported is the first one. -/
def abandon (link : Link m) : m Unit := do
  match ← link.send .rollback with
  | .ok _ => pure ()
  | .error _ => discard (link.send .rollback)

/-- Ends a transaction after a success. If that fails, the client rolls back. -/
def settle (link : Link m) (a : α) : m (Except StoreError α) := do
  match ← link.send .commit with
  | .ok _ => pure (.ok a)
  | .error e => do
    discard (link.send .rollback)
    pure (.error e.toStoreError)

/-- Runs a program in a transaction. Without a transaction nothing is sent. -/
def transaction (link : Link m) (p : Program α) : ExceptT StoreError m α := ExceptT.mk do
  match ← link.send .begin with
  | .error e => pure (.error e.toStoreError)
  | .ok _ =>
    match ← (p.run link).run with
    | .ok a => link.settle a
    | .error e => do
      link.abandon
      pure (.error e)

end Link
end FilmCatalog
