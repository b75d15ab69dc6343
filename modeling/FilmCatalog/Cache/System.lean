import FilmCatalog.Cache.Layer
import FilmCatalog.Cache.Pool
import FilmCatalog.Cache.Probe

/-!
# Background work

One thread works for a foreground and for the workers of a pool; whoever is
ready gets it in turn. A worker keeps the thread until its job has to wait: for
a pause, for a stripe that another job holds, or at a gate. When all wait, the
clock goes on to the next time at which something is due.

Workers without a job stand in a line. The first of them goes to the queue for
a task; when it has taken one the next steps forward. A stripe that is given
back goes to the job that waited longest for it, and so does a passage through
a gate.

A turn has 128 steps. Going to the queue is one, taking a task is one, and so
is the end of each wait, even of one that is over at once. A worker that needs
a step and has none left yields until nobody else is ready.

Background work happens only while the foreground waits. When both are due at
one time the foreground goes first.

Key definitions: `CacheSystem`, `CacheSystem.submit`, `CacheSystem.perform`,
`CacheSystem.look`, `CacheSystem.run`, `CacheSystem.idle`, `CacheSystem.layer`.
-/

namespace FilmCatalog

/-- Who is ready for the thread. -/
inductive Turn where
  /-- A new worker. -/
  | arrive
  /-- The worker at the head of the line. -/
  | head
  /-- The same worker once more, within its turn. -/
  | again
  /-- A started job. -/
  | resume (id : Nat)
  deriving DecidableEq, Repr

/-- A backend, a pool that works over it, and the order of that work. -/
structure CacheSystem where
  probe : Probe
  pool : Pool
  /-- The time in milliseconds. -/
  now : Nat
  ready : List Turn
  /-- Who yielded, the first first. -/
  yielded : List Turn
  /-- How many steps are left of the turn. -/
  left : Nat
  /-- How many workers stand in line. -/
  parked : Nat
  /-- Whether the head of the line is at the queue. -/
  headAtQueue : Bool
  /-- Whether the head of the line is ready. -/
  headReady : Bool
  /-- When to look at which run, the first set first. -/
  timers : List (Nat × Nat)
  /-- Who waits for which stripe, the first come first. -/
  stripeLine : List (Nat × Nat)
  /-- Who waits at which gate, the first come first. -/
  gateLine : List (String × Nat)
  /-- Gates that let one more job through. -/
  openGates : List String
  /-- What was counted, the latest first. -/
  counted : List (Counter × Namespace)
  /-- The labels of finished jobs, the latest first. -/
  finished : List String

namespace CacheSystem

/-- The system without entries and tasks; all its workers are new. -/
def start (capacity workers queue timeout : Nat) : CacheSystem :=
  let pool := Pool.empty workers queue timeout
  { probe := .empty capacity
    pool := pool
    now := 0
    ready := List.replicate pool.workers .arrive
    yielded := []
    left := 0
    parked := 0
    headAtQueue := false
    headReady := false
    timers := []
    stripeLine := []
    gateLine := []
    openGates := []
    counted := []
    finished := [] }

/-- Counts something. -/
def count (s : CacheSystem) (c : Counter) (ns : Namespace) : CacheSystem :=
  { s with counted := (c, ns) :: s.counted }

/-- How many steps a turn has. -/
def turnLength : Nat := 128

/-- Takes a step. -/
def spend (s : CacheSystem) : CacheSystem := { s with left := s.left - 1 }

/-! ## Waking -/

/-- Makes a run ready, if it is not ready already. -/
def wake (s : CacheSystem) (id : Nat) : CacheSystem :=
  match s.pool.find? id with
  | none => s
  | some r =>
    if r.woken then s
    else
      { s with
        pool := s.pool.modify id fun r => { r with woken := true }
        ready := s.ready ++ [.resume id] }

/-- Makes the head of the line ready, if there is one that is not. -/
def wakeHead (s : CacheSystem) : CacheSystem :=
  if s.parked = 0 || s.headReady then s
  else { s with headReady := true, ready := s.ready ++ [.head] }

/-- Wakes every run whose time has come, in the order of the times. -/
def fire (s : CacheSystem) : CacheSystem :=
  let (due, later) := s.timers.partition fun t => t.1 ≤ s.now
  let inOrder := due.mergeSort fun a b => decide (a.1 ≤ b.1)
  inOrder.foldl (fun s t => s.wake t.2) { s with timers := later }

/-- Queues a task, or counts that it was refused. -/
def submit (s : CacheSystem) (t : Task) : Bool × CacheSystem :=
  match s.pool.submit? t with
  | none => (false, s.count .dropped t.ns)
  | some pool => (true, { s with pool := pool }.wakeHead)

/-! ## Stripes and gates -/

/-- Whether nobody holds a stripe. -/
def stripeFree (s : CacheSystem) (stripe : Nat) : Bool :=
  !s.pool.running.any fun r => r.held.contains stripe

/-- Gives a stripe to a run. -/
def hold (s : CacheSystem) (id stripe : Nat) : CacheSystem :=
  { s with pool := s.pool.modify id fun r => { r with held := r.held ++ [stripe] } }

/-- Lets a run go on that waited. -/
def release (s : CacheSystem) (id : Nat) : CacheSystem :=
  { s with pool := s.pool.modify id fun r => { r with wait := .granted } }.wake id

/-- Gives a free stripe to the run that waited longest for it. -/
def passOn (s : CacheSystem) (stripe : Nat) : CacheSystem :=
  match s.stripeLine.find? (·.1 == stripe) with
  | none => s
  | some (_, id) =>
    (({ s with stripeLine := s.stripeLine.erase (stripe, id) }.hold id stripe).release id)

/-- Lets one job through a gate, now or when it comes. -/
def openGate (s : CacheSystem) (name : String) : CacheSystem :=
  match s.gateLine.find? (·.1 == name) with
  | none => { s with openGates := s.openGates ++ [name] }
  | some (_, id) => { s with gateLine := s.gateLine.erase (name, id) }.release id

/-! ## Jobs -/

/-- How far a job got. -/
inductive Halt where
  | ended
  | panicked
  | waits (rest : Job) (paid : Bool) (on : Wait)

/-- Goes on with the job of a run until it ends, has to wait or yields. The
delay of the first call is over if `paid`. -/
def perform (id : Nat) : Job → Bool → CacheSystem → Halt × CacheSystem
  | .done, _, s => (.ended, s)
  | .panic, _, s => (.panicked, s)
  | .lock stripe next, _, s =>
    if s.left = 0 then (.waits (.lock stripe next) false .nothing, s)
    else if s.stripeFree stripe then perform id next false (s.spend.hold id stripe)
    else
      (.waits next false (.stripe stripe),
        { s with stripeLine := s.stripeLine ++ [(stripe, id)] })
  | .get key next, paid, s =>
    let delay := s.probe.delay .get
    if paid || delay = 0 then
      let (answer, probe) := s.probe.get key
      perform id (next answer) false { s with probe := probe }
    else (.waits (.get key next) true (.until (s.now + delay)), s)
  | .set key value ttl next, paid, s =>
    let delay := s.probe.delay .set
    if paid || delay = 0 then
      match s.probe.set key value ttl with
      | (some answer, probe) => perform id (next answer) false { s with probe := probe }
      | (none, probe) => (.panicked, { s with probe := probe })
    else (.waits (.set key value ttl next) true (.until (s.now + delay)), s)
  | .delete key next, paid, s =>
    let delay := s.probe.delay .delete
    if paid || delay = 0 then
      let (answer, probe) := s.probe.delete key
      perform id (next answer) false { s with probe := probe }
    else (.waits (.delete key next) true (.until (s.now + delay)), s)
  | .count c ns next, _, s => perform id next false (s.count c ns)
  | .sleep ms next, _, s =>
    if ms ≠ 0 then (.waits next false (.until (s.now + ms)), s)
    else if s.left = 0 then (.waits (.sleep ms next) false .nothing, s)
    else perform id next false s.spend
  | .gate name next, _, s =>
    if s.left = 0 then (.waits (.gate name next) false .nothing, s)
    else if s.openGates.contains name then
      perform id next false { s.spend with openGates := s.openGates.erase name }
    else (.waits next false (.gate name), { s with gateLine := s.gateLine ++ [(name, id)] })

/-- A worker without a job goes to the end of the line. Without a line it goes
on at once to the queue. -/
def rejoin (s : CacheSystem) : CacheSystem :=
  if s.left = 0 then { s with yielded := s.yielded ++ [.arrive] }
  else if s.parked = 0 then
    { s.spend with parked := 1, headAtQueue := true, headReady := true, ready := .again :: s.ready }
  else { s with parked := s.parked + 1 }

/-- Takes a run out: it waits no more, its stripes are passed on, and its
worker is free. -/
def endRun (s : CacheSystem) (id : Nat) : CacheSystem :=
  let held := ((s.pool.find? id).map (·.held)).getD []
  let s := { s with
    pool := s.pool.finish id
    timers := s.timers.filter (fun t => t.2 != id)
    stripeLine := s.stripeLine.filter (fun w => w.2 != id)
    gateLine := s.gateLine.filter (fun w => w.2 != id) }
  (held.foldl passOn s).rejoin

/-- Cuts a run off where it stands. -/
def cutOff (s : CacheSystem) (r : Run) : CacheSystem :=
  (s.count .timeout r.task.ns).endRun r.id

/-- Leaves a run waiting or yielding, or cuts it off if its time is over. -/
def suspend (s : CacheSystem) (r : Run) (rest : Job) (paid : Bool) (on : Wait) : CacheSystem :=
  if r.deadline ≤ s.now then s.cutOff r
  else
    let s := { s with pool := s.pool.modify r.id fun r =>
      { r with rest := rest, paid := paid, wait := on } }
    match on with
    | .until t => { s with timers := s.timers ++ [(t, r.id)] }
    | .nothing => { s with
        pool := s.pool.modify r.id fun r => { r with woken := true }
        yielded := s.yielded ++ [.resume r.id] }
    | _ => s

/-- Whether a run has nothing more to wait for. -/
def canGoOn (s : CacheSystem) (r : Run) : Bool :=
  match r.wait with
  | .nothing => true
  | .granted => true
  | .until t => t ≤ s.now
  | .stripe _ => false
  | .gate _ => false

/-- Looks at a run: it goes on, or is cut off if its time is over. -/
def look (s : CacheSystem) (id : Nat) : CacheSystem :=
  match s.pool.find? id with
  | none => s
  | some r =>
    let s := { s with pool := s.pool.modify id fun r => { r with woken := false } }
    if s.canGoOn r then
      match perform id r.rest r.paid (if r.wait = .nothing then s else s.spend) with
      | (.ended, s) => { s.endRun id with finished := r.task.label :: s.finished }
      | (.panicked, s) => s.endRun id
      | (.waits rest paid on, s) => s.suspend r rest paid on
    else if r.deadline ≤ s.now then s.cutOff r
    else s

/-! ## Workers -/

/-- The head of the line takes a task, if there is one; the next steps
forward and the task is begun. -/
def takeTask (s : CacheSystem) : CacheSystem :=
  if s.left = 0 then { s with headReady := true, yielded := s.yielded ++ [.head] }
  else
    match s.pool.start? s.now with
    | none => s
    | some (r, pool) =>
      let s := { s.spend with
        pool := pool
        parked := s.parked - 1
        headAtQueue := false
        timers := s.timers ++ [(r.deadline, r.id)] }
      s.wakeHead.look r.id

/-- The head of the line goes to the queue, if it is not there, and takes a task. -/
def goToQueue (s : CacheSystem) : CacheSystem :=
  if s.headAtQueue then s.takeTask else { s.spend with headAtQueue := true }.takeTask

/-- Gives the thread to whoever has the turn. -/
def serve (s : CacheSystem) : Turn → CacheSystem
  | .arrive => { s with left := turnLength }.rejoin
  | .head => { s with left := turnLength, headReady := false }.goToQueue
  | .again => { s with headReady := false }.takeTask
  | .resume id => { s with left := turnLength }.look id

/-- What a state comes to when a step is repeated until it gives the last one. -/
def repeated (step : CacheSystem → ForInStep CacheSystem) (s : CacheSystem) : CacheSystem :=
  have : Nonempty CacheSystem := ⟨s⟩
  Id.run <| repeatM (fun s => match step s with
    | .yield s => pure (.inl s)
    | .done s => pure (.inr s)) s

theorem repeated_eq (step : CacheSystem → ForInStep CacheSystem) (s : CacheSystem) :
    repeated step s = match step s with
      | .yield s => repeated step s
      | .done s => s := by
  have : Nonempty CacheSystem := ⟨s⟩
  rw [repeated, repeatM_eq_of_monadTail]
  simp only [repeatM.body]
  cases step s <;> rfl

/-- Gives the thread to whoever is next; those who yielded are ready again when
there are no others. -/
def runStep (s : CacheSystem) : ForInStep CacheSystem :=
  match s.ready with
  | [] => if s.yielded.isEmpty then .done s else .yield { s with ready := s.yielded, yielded := [] }
  | turn :: rest => .yield ({ s with ready := rest }.serve turn)

/-- Serves all who are ready, and all who become ready by it. -/
def run : CacheSystem → CacheSystem := repeated runStep

/-! ## Time -/

/-- The next time at which something is due. -/
def nextTime? (s : CacheSystem) : Option Nat := (s.timers.map (·.1)).min?

/-- Moves the clock and wakes what is due. -/
def reach (s : CacheSystem) (time : Nat) : CacheSystem := { s with now := max s.now time }.fire

/-- Serves all who are ready and moves the clock, if tasks wait or run still. -/
def idleStep (s : CacheSystem) : ForInStep CacheSystem :=
  if s.pool.pending = 0 then .done s
  else
    let s := s.run
    if s.pool.pending = 0 then .done s
    else
      match s.nextTime? with
      | some t => .yield (s.reach t)
      | none => .done s

/-- Waits until no task waits or runs. -/
def idle : CacheSystem → CacheSystem := repeated idleStep

/-- Serves all who are ready and moves the clock, at most to a time. -/
def waitStep (time : Nat) (s : CacheSystem) : ForInStep CacheSystem :=
  let s := s.run
  match s.nextTime? with
  | some t => if t < time then .yield (s.reach t) else .done (s.reach time)
  | none => .done (s.reach time)

/-- Waits in the foreground, during which background work goes on; what is due
at the end is made ready only. -/
def pause (s : CacheSystem) (ms : Nat) : CacheSystem :=
  if ms = 0 then s else repeated (waitStep (s.now + ms)) s

/-- Serves all who are ready and makes those ready who are due. -/
def catchUpStep (s : CacheSystem) : ForInStep CacheSystem :=
  let s := s.run
  if s.timers.any fun t => t.1 ≤ s.now then .yield s.fire else .done s

/-- Moves the clock at once and lets go on what is due by then. -/
def advance (s : CacheSystem) (ms : Nat) : CacheSystem :=
  repeated catchUpStep { s with now := s.now + ms }

/-! ## The foreground -/

/-- The cache layer of a system, for the foreground. -/
def layer {m : Type → Type} [Monad m] : CacheLayer (StateT CacheSystem m) where
  get key := modifyGet fun s =>
    let s := s.pause (s.probe.delay .get)
    let (answer, probe) := s.probe.get key
    (answer, { s with probe := probe })
  delete key := modifyGet fun s =>
    let s := s.pause (s.probe.delay .delete)
    let (answer, probe) := s.probe.delete key
    (answer, { s with probe := probe })
  submit t := modifyGet fun s => s.submit t
  count c ns := modify fun s => s.count c ns

end CacheSystem
end FilmCatalog
