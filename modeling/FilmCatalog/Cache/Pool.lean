import FilmCatalog.Cache.Job

/-!
# The pool

At most `queue` tasks wait and at most `workers` run. A task that finds the
queue full is refused; the others are started in the order in which they came
and end once: finished, panicked or cut off. `pending` counts the tasks that
wait or run.

Key definitions: `Pool`, `Run`, `Pool.submit?`, `Pool.start?`, `Pool.finish`.
Key theorems: `Pool.waiting_le_of_submit?`.
-/

namespace FilmCatalog

/-- Why a run does not go on. -/
inductive Wait where
  /-- It can go on. -/
  | nothing
  /-- It was given what it waited for. -/
  | granted
  | until (time : Nat)
  | stripe (s : Nat)
  | gate (name : String)
  deriving DecidableEq, Repr

/-- A task that was started: what is left to do and what it holds. -/
structure Run where
  id : Nat
  task : Task
  /-- When it is cut off. -/
  deadline : Nat
  rest : Job
  /-- Whether the delay of the next call is over. -/
  paid : Bool
  /-- Its stripes in the order in which it got them. -/
  held : List Nat
  wait : Wait
  /-- Whether it is going to be looked at. -/
  woken : Bool

/-- The tasks of a pool. -/
structure Pool where
  workers : Nat
  queue : Nat
  /-- How long one run may take, in milliseconds. -/
  timeout : Nat
  /-- The first to start comes first. -/
  waiting : List Task
  /-- The first started comes first. -/
  running : List Run
  pending : Nat
  /-- How many tasks were started so far; the next run has this id. -/
  started : Nat

namespace Pool

/-- The most places that a queue can have, `2 ^ 61 - 1`. -/
def longest : Nat := 2305843009213693951

/-- The pool without tasks; a worker and a place to wait there always are. -/
def empty (workers queue timeout : Nat) : Pool where
  workers := max workers 1
  queue := max queue 1
  timeout := timeout
  waiting := []
  running := []
  pending := 0
  started := 0

/-- The pool with one more waiting task, unless too many wait. -/
def submit? (p : Pool) (t : Task) : Option Pool :=
  if p.waiting.length < p.queue then
    some { p with waiting := p.waiting ++ [t], pending := p.pending + 1 }
  else none

/-- Starts the task that waited longest. -/
def start? (p : Pool) (now : Nat) : Option (Run × Pool) :=
  match p.waiting with
  | [] => none
  | t :: rest =>
    let r : Run := {
      id := p.started
      task := t
      deadline := now + p.timeout
      rest := t.job
      paid := false
      held := []
      wait := .nothing
      woken := false }
    some (r, { p with waiting := rest, running := p.running ++ [r], started := p.started + 1 })

/-- Takes a run out when it ended. -/
def finish (p : Pool) (id : Nat) : Pool :=
  { p with running := p.running.filter (fun r => r.id != id), pending := p.pending - 1 }

/-- The run of an id. -/
def find? (p : Pool) (id : Nat) : Option Run := p.running.find? (·.id == id)

/-- Changes the run of an id. -/
def modify (p : Pool) (id : Nat) (f : Run → Run) : Pool :=
  { p with running := p.running.map fun r => if r.id = id then f r else r }

/-- The waiting tasks stay within the queue. -/
theorem waiting_le_of_submit? {p q : Pool} {t : Task} (h : p.submit? t = some q) :
    q.waiting.length ≤ q.queue := by
  unfold submit? at h
  split at h
  · cases h
    simp
    omega
  · cases h

end Pool
end FilmCatalog
