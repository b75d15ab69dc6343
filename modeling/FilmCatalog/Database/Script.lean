import FilmCatalog.Database.Program

/-!
# A scripted database

A database that answers commands with prepared replies, one after the other,
and with no rows when none are left. A reply may depend on the command that gets
it. Transaction requests succeed unless a fault is prepared for them. Everything
that it receives is kept in order.

Key definitions: `Script`, `Script.answer`, `Script.link`.
-/

namespace FilmCatalog

/-- Prepared replies and what was received so far, the latest first. -/
structure Script where
  replies : List (Command → Reply) := []
  beginFault : Option DatabaseFault := none
  commitFault : Option DatabaseFault := none
  rollbackFault : Option DatabaseFault := none
  now : Int := 0
  received : List Request := []

namespace Script

/-- The reply to a transaction request. -/
def settled : Option DatabaseFault → Reply
  | some e => .error e
  | none => .ok []

/-- The reply to a request, and the script that remains. -/
def answer (s : Script) (r : Request) : Reply × Script :=
  let s := { s with received := r :: s.received }
  match r with
  | .begin => (settled s.beginFault, s)
  | .commit => (settled s.commitFault, s)
  | .rollback => (settled s.rollbackFault, s)
  | .run c =>
    match s.replies with
    | [] => (.ok [], s)
    | reply :: rest => (reply c, { s with replies := rest })

/-- The requests in the order in which they came. -/
def log (s : Script) : List Request := s.received.reverse

/-- The link to a scripted database. -/
def link : Link (StateM Script) where
  send r := fun s => s.answer r
  clock := do return (← get).now

end Script
end FilmCatalog
