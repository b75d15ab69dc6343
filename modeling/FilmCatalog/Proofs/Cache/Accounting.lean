import FilmCatalog.Cache.Pool
import Mathlib

/-!
# The books of a pool

A pool as its callers and workers share it. A call is counted before it is
offered to the queue, and the count is taken back if the queue refuses it. A
worker that is free takes the task that waited longest; when its run ends, in
whatever way, the worker leaves the run and then lowers the count. Between any
two of these steps others may make theirs, so the counter is ahead of the tasks
that wait or run by the calls and workers that are in the middle of something.

Beside the pool the roster has what every worker is at, which calls were
accepted and which refused, which tasks were begun and how each run ended.

Key definitions: `Ending`, `Duty`, `Roster`, `Roster.Step`, `Roster.Reachable`, `Roster.Sound`.
Key theorems: `Roster.Sound.step`, `Roster.Reachable.sound`, `Roster.Sound.idle`.
-/

namespace FilmCatalog

/-- How a run ends. -/
inductive Ending where
  | finished
  | panicked
  | cutOff
  deriving DecidableEq, Repr

/-- What a worker is at. -/
inductive Duty where
  | free
  /-- It has the run of an id. -/
  | busy (id : ℕ)
  /-- Its run has ended and is still counted. -/
  | leaving (id : ℕ) (how : Ending)
  deriving DecidableEq, Repr

namespace Duty

/-- The run that a worker has. -/
def run? : Duty → Option ℕ
  | busy id => some id
  | _ => none

/-- The run that a worker leaves. -/
def left? : Duty → Option ℕ
  | leaving id _ => some id
  | _ => none

end Duty

theorem Pool.submit?_eq_some_iff {p q : Pool} {t : Task} :
    p.submit? t = some q ↔ p.waiting.length < p.queue ∧
      { p with waiting := p.waiting ++ [t], pending := p.pending + 1 } = q := by
  simp [Pool.submit?]

/-- The task that waited longest begins. -/
theorem Pool.start?_eq_some_iff {p q : Pool} {now : ℕ} {r : Run} :
    p.start? now = some (r, q) ↔ ∃ t later, p.waiting = t :: later ∧
      r = ⟨p.started, t, now + p.timeout, t.job, false, [], .nothing, false⟩ ∧
      q = { p with waiting := later, running := p.running ++ [r], started := p.started + 1 } := by
  unfold start?
  cases hwaiting : p.waiting with
  | nil => simp
  | cons t later =>
    simp only [Option.some.injEq, Prod.mk.injEq, List.cons.injEq]
    constructor
    · rintro ⟨rfl, rfl⟩
      exact ⟨t, later, ⟨rfl, rfl⟩, rfl, rfl⟩
    · rintro ⟨_, _, ⟨rfl, rfl⟩, rfl, rfl⟩
      exact ⟨rfl, rfl⟩

/-- A pool with its workers, the calls that are being made, and what became of
earlier ones. Calls are numbered in the order in which they began. -/
structure Roster where
  /-- The pool as the calls leave it that were made in full. -/
  pool : Pool
  /-- The counter that calls and workers share. -/
  counter : ℕ
  crew : List Duty
  /-- How many calls have begun. -/
  calls : ℕ
  /-- The calls that were counted and not yet offered to the queue. -/
  offering : List (ℕ × Task)
  /-- The calls that were refused and are still counted. -/
  shed : List ℕ
  accepted : List (ℕ × Task)
  refused : List ℕ
  /-- The runs that were started, with their tasks. -/
  begun : List (ℕ × Task)
  /-- The runs that have ended and are counted no more. -/
  ended : List (ℕ × Ending)

namespace Roster

/-- The runs that workers have. -/
def held (s : Roster) : List ℕ := s.crew.filterMap Duty.run?

/-- The runs that workers leave. -/
def leaving (s : Roster) : List ℕ := s.crew.filterMap Duty.left?

/-- The roster of a pool without tasks. -/
def start (workers queue timeout : ℕ) : Roster where
  pool := .empty workers queue timeout
  counter := 0
  crew := List.replicate (max workers 1) .free
  calls := 0
  offering := []
  shed := []
  accepted := []
  refused := []
  begun := []
  ended := []

/-- One step of a call or of a worker. -/
inductive Step (s : Roster) : Roster → Prop where
  /-- A call counts its task. -/
  | raise (t : Task) :
      Step s { s with
        counter := s.counter + 1
        calls := s.calls + 1
        offering := s.offering ++ [(s.calls, t)] }
  | accept {before behind : List (ℕ × Task)} {n : ℕ} {t : Task} {p : Pool}
      (h : s.offering = before ++ (n, t) :: behind) (hp : s.pool.submit? t = some p) :
      Step s { s with
        pool := p
        offering := before ++ behind
        accepted := s.accepted ++ [(n, t)] }
  | refuse {before behind : List (ℕ × Task)} {n : ℕ} {t : Task}
      (h : s.offering = before ++ (n, t) :: behind) (hp : s.pool.submit? t = none) :
      Step s { s with
        offering := before ++ behind
        shed := s.shed ++ [n]
        refused := s.refused ++ [n] }
  /-- A call that was refused takes its count back. -/
  | withdraw {before behind : List ℕ} {n : ℕ} (h : s.shed = before ++ n :: behind) :
      Step s { s with counter := s.counter - 1, shed := before ++ behind }
  | begin {before behind : List Duty} {now : ℕ} {r : Run} {p : Pool}
      (h : s.crew = before ++ .free :: behind) (hp : s.pool.start? now = some (r, p)) :
      Step s { s with
        pool := p
        crew := before ++ .busy r.id :: behind
        begun := s.begun ++ [(r.id, r.task)] }
  /-- Runs go on with their jobs. -/
  | work {runs : List Run}
      (h : runs.map (fun r => (r.id, r.task)) = s.pool.running.map fun r => (r.id, r.task)) :
      Step s { s with pool := { s.pool with running := runs } }
  /-- A run ends. -/
  | leave {before behind : List Duty} {id : ℕ} (how : Ending)
      (h : s.crew = before ++ .busy id :: behind) :
      Step s { s with pool := s.pool.finish id, crew := before ++ .leaving id how :: behind }
  /-- The worker of a run that has ended lowers the count. -/
  | settle {before behind : List Duty} {id : ℕ} {how : Ending}
      (h : s.crew = before ++ .leaving id how :: behind) :
      Step s { s with
        counter := s.counter - 1
        crew := before ++ .free :: behind
        ended := s.ended ++ [(id, how)] }

/-- What comes of a pool without tasks. -/
def Reachable (workers queue timeout : ℕ) (s : Roster) : Prop :=
  Relation.ReflTransGen Step (start workers queue timeout) s

/-! ## The books balance -/

/-- What holds of a roster between any two steps. -/
structure Sound (workers queue : ℕ) (s : Roster) : Prop where
  places : s.pool.queue = max queue 1
  crew : s.crew.length = max workers 1
  waiting_le : s.pool.waiting.length ≤ s.pool.queue
  /-- Every run has its own worker. -/
  held : s.held.Perm (s.pool.running.map (·.id))
  /-- Of the calls each is accepted, refused or being made. -/
  calls : (s.accepted.map Prod.fst ++ s.refused ++ s.offering.map Prod.fst).Perm
    (List.range s.calls)
  /-- The tasks that were begun are the first that were accepted, the others wait. -/
  accepted : s.begun.map Prod.snd ++ s.pool.waiting = s.accepted.map Prod.snd
  begun : s.begun.map Prod.fst = List.range s.pool.started
  /-- Of the runs that were started each is there, being left, or ended. -/
  runs : (s.ended.map Prod.fst ++ s.leaving ++ s.held).Perm (List.range s.pool.started)
  pending : s.pool.pending = s.pool.waiting.length + s.pool.running.length
  counter : s.counter = s.pool.pending + s.offering.length + s.shed.length + s.leaving.length

namespace Sound

variable {workers queue timeout : ℕ} {s s' : Roster}

theorem start : Sound workers queue (start workers queue timeout) where
  places := rfl
  crew := List.length_replicate
  waiting_le := Nat.zero_le _
  held := by simp [Roster.start, Roster.held, Pool.empty, Duty.run?]
  calls := by simp [Roster.start]
  accepted := rfl
  begun := rfl
  runs := by simp [Roster.start, Roster.held, Roster.leaving, Pool.empty, Duty.run?, Duty.left?]
  pending := rfl
  counter := by
    rw [Roster.leaving, Roster.start, List.filterMap_eq_nil_iff.2 (by simp [Duty.left?])]
    rfl

theorem nodup_running (h : s.Sound workers queue) : (s.pool.running.map (·.id)).Nodup := by
  have hall := h.runs.nodup_iff.2 List.nodup_range
  exact h.held.nodup_iff.1 (List.nodup_append.1 hall).2.1

section Crew
variable {before behind : List Duty} {d d' : Duty}

/-- What a crew has, seen from one worker. -/
theorem held_eq (h : s.crew = before ++ d :: behind) :
    s.held = before.filterMap Duty.run? ++ (d.run?.toList ++ behind.filterMap Duty.run?) := by
  rw [Roster.held, h, List.filterMap_append, List.filterMap_cons]
  cases d.run? <;> rfl

theorem leaving_eq (h : s.crew = before ++ d :: behind) :
    s.leaving = before.filterMap Duty.left? ++ (d.left?.toList ++ behind.filterMap Duty.left?) := by
  rw [Roster.leaving, h, List.filterMap_append, List.filterMap_cons]
  cases d.left? <;> rfl

end Crew

/-! ## What a step changes -/

theorem raise (h : s.Sound workers queue) (t : Task) :
    Sound workers queue { s with
      counter := s.counter + 1
      calls := s.calls + 1
      offering := s.offering ++ [(s.calls, t)] } :=
  { h with
    calls := by
      rw [List.map_append, ← List.append_assoc, List.range_succ]
      exact h.calls.append_right _
    counter := by
      have hcounter := h.counter
      rw [List.length_append, List.length_singleton]
      show s.counter + 1 = s.pool.pending + _ + s.shed.length + s.leaving.length
      omega }

section Calls
variable {before behind : List (ℕ × Task)} {n : ℕ} {t : Task}

theorem offering_perm (hoffer : s.offering = before ++ (n, t) :: behind) :
    (s.offering.map Prod.fst).Perm (n :: (before ++ behind).map Prod.fst) := by
  rw [hoffer, List.map_append, List.map_cons, List.map_append]
  exact List.perm_middle

theorem accept (h : s.Sound workers queue) (hoffer : s.offering = before ++ (n, t) :: behind)
    {p : Pool} (hp : s.pool.submit? t = some p) :
    Sound workers queue { s with
      pool := p
      offering := before ++ behind
      accepted := s.accepted ++ [(n, t)] } := by
  obtain ⟨hroom, rfl⟩ := Pool.submit?_eq_some_iff.1 hp
  exact { h with
    waiting_le := by simpa using hroom
    calls := by
      refine List.Perm.trans ?_ h.calls
      rw [List.map_append, List.append_assoc, List.append_assoc, List.append_assoc]
      refine List.Perm.append_left _ ?_
      rw [List.map_singleton, List.singleton_append]
      exact List.perm_middle.symm.trans ((offering_perm hoffer).symm.append_left _)
    accepted := by
      show s.begun.map Prod.snd ++ (s.pool.waiting ++ [t]) = _
      rw [← List.append_assoc, h.accepted, List.map_append]
      rfl
    pending := by
      have hpending := h.pending
      simp only [List.length_append, List.length_singleton]
      omega
    counter := by
      have hcounter := h.counter
      rw [hoffer] at hcounter
      simp only [List.length_append, List.length_cons] at hcounter ⊢
      show s.counter = s.pool.pending + 1 + _ + s.shed.length + s.leaving.length
      omega }

theorem refuse (h : s.Sound workers queue) (hoffer : s.offering = before ++ (n, t) :: behind) :
    Sound workers queue { s with
      offering := before ++ behind
      shed := s.shed ++ [n]
      refused := s.refused ++ [n] } :=
  { h with
    calls := by
      refine List.Perm.trans ?_ h.calls
      rw [List.append_assoc, List.append_assoc, List.append_assoc]
      exact ((offering_perm hoffer).symm.append_left _).append_left _
    counter := by
      have hcounter := h.counter
      rw [hoffer] at hcounter
      simp only [List.length_append, List.length_cons, List.length_nil] at hcounter ⊢
      show s.counter = s.pool.pending + _ + _ + s.leaving.length
      omega }

end Calls

theorem withdraw (h : s.Sound workers queue) {before behind : List ℕ} {n : ℕ}
    (hshed : s.shed = before ++ n :: behind) :
    Sound workers queue { s with counter := s.counter - 1, shed := before ++ behind } :=
  { h with
    counter := by
      have hcounter := h.counter
      rw [hshed] at hcounter
      simp only [List.length_append, List.length_cons] at hcounter ⊢
      show s.counter - 1 = s.pool.pending + s.offering.length + _ + s.leaving.length
      omega }

section Workers
variable {before behind : List Duty} {id : ℕ}

theorem begin (h : s.Sound workers queue) (hcrew : s.crew = before ++ .free :: behind) {now : ℕ}
    {r : Run} {p : Pool} (hp : s.pool.start? now = some (r, p)) :
    Sound workers queue { s with
      pool := p
      crew := before ++ .busy r.id :: behind
      begun := s.begun ++ [(r.id, r.task)] } := by
  obtain ⟨t, rest, hwaiting, rfl, rfl⟩ := Pool.start?_eq_some_iff.1 hp
  have hheld : (Roster.held { s with crew := before ++ .busy s.pool.started :: behind }).Perm
      (s.held ++ [s.pool.started]) := by
    rw [held_eq hcrew, held_eq (s := { s with crew := _ }) rfl]
    exact List.perm_middle.trans (List.perm_append_singleton _ _).symm
  have hleaving : Roster.leaving { s with crew := before ++ .busy s.pool.started :: behind } =
      s.leaving := by
    rw [leaving_eq hcrew, leaving_eq (s := { s with crew := _ }) rfl]
    rfl
  exact { h with
    crew := by simpa [hcrew] using h.crew
    waiting_le := by
      have hle := h.waiting_le
      rw [hwaiting, List.length_cons] at hle
      exact Nat.le_of_succ_le hle
    held := by
      refine hheld.trans ?_
      rw [List.map_append]
      exact h.held.append_right _
    accepted := by
      have haccepted := h.accepted
      rw [hwaiting] at haccepted
      rw [List.map_append, List.append_assoc]
      exact haccepted
    begun := by
      rw [List.map_append, h.begun, List.range_succ]
      rfl
    runs := by
      rw [List.range_succ]
      refine List.Perm.trans ?_ (h.runs.append_right _)
      rw [List.append_assoc _ s.held]
      exact ((List.Perm.of_eq hleaving).append_left _).append hheld
    pending := by
      have hpending := h.pending
      rw [hwaiting, List.length_cons] at hpending
      simp only [List.length_append, List.length_singleton]
      omega
    counter := by
      exact h.counter.trans (congrArg (_ + ·) (congrArg List.length hleaving.symm)) }

/-- Runs that go on stay the same runs. -/
theorem work (h : s.Sound workers queue) {runs : List Run}
    (hruns : runs.map (fun r => (r.id, r.task)) = s.pool.running.map fun r => (r.id, r.task)) :
    Sound workers queue { s with pool := { s.pool with running := runs } } :=
  { h with
    held := by
      have hids := congrArg (List.map Prod.fst) hruns
      rw [List.map_map, List.map_map] at hids
      exact h.held.trans (List.Perm.of_eq hids.symm)
    pending := by
      have hlength := congrArg List.length hruns
      rw [List.length_map, List.length_map] at hlength
      show s.pool.pending = s.pool.waiting.length + runs.length
      rw [hlength]
      exact h.pending }

/-- The runs without the one that ends. -/
theorem finish_perm (h : s.Sound workers queue) (hid : id ∈ s.pool.running.map (·.id)) :
    (s.pool.running.map (·.id)).Perm (id :: (s.pool.finish id).running.map (·.id)) := by
  have hfilter : (s.pool.finish id).running.map (·.id) = (s.pool.running.map (·.id)).erase id := by
    rw [h.nodup_running.erase_eq_filter, List.filter_map]
    rfl
  rw [hfilter]
  exact List.perm_cons_erase hid

theorem leave (h : s.Sound workers queue) (how : Ending)
    (hcrew : s.crew = before ++ .busy id :: behind) :
    Sound workers queue { s with
      pool := s.pool.finish id, crew := before ++ .leaving id how :: behind } := by
  have hheld : s.held.Perm
      (id :: Roster.held { s with crew := before ++ .leaving id how :: behind }) := by
    rw [held_eq hcrew, held_eq (s := { s with crew := _ }) rfl]
    exact List.perm_middle
  have hleaving : (Roster.leaving { s with crew := before ++ .leaving id how :: behind }).Perm
      (id :: s.leaving) := by
    rw [leaving_eq hcrew, leaving_eq (s := { s with crew := _ }) rfl]
    exact List.perm_middle
  have hrunning := h.finish_perm (h.held.mem_iff.1 (hheld.mem_iff.2 List.mem_cons_self))
  have hlength := hrunning.length_eq
  rw [List.length_cons, List.length_map, List.length_map] at hlength
  have hpending := h.pending
  exact { h with
    crew := by simpa [hcrew] using h.crew
    held := (List.perm_cons id).1 (hheld.symm.trans (h.held.trans hrunning))
    runs := by
      refine List.Perm.trans ?_ h.runs
      rw [List.append_assoc, List.append_assoc]
      refine List.Perm.append_left _ ?_
      exact (hleaving.append_right _).trans
        (List.perm_middle.symm.trans (hheld.symm.append_left _))
    pending := by
      show s.pool.pending - 1 = s.pool.waiting.length + (s.pool.finish id).running.length
      omega
    counter := by
      have hcounter := h.counter
      have hmore := hleaving.length_eq
      rw [List.length_cons] at hmore
      show s.counter = s.pool.pending - 1 + s.offering.length + s.shed.length +
        (Roster.leaving { s with crew := before ++ .leaving id how :: behind }).length
      omega }

theorem settle (h : s.Sound workers queue) {how : Ending}
    (hcrew : s.crew = before ++ .leaving id how :: behind) :
    Sound workers queue { s with
      counter := s.counter - 1
      crew := before ++ .free :: behind
      ended := s.ended ++ [(id, how)] } := by
  have hheld : Roster.held { s with crew := before ++ .free :: behind } = s.held := by
    rw [held_eq hcrew, held_eq (s := { s with crew := _ }) rfl]
    rfl
  have hleaving : s.leaving.Perm
      (id :: Roster.leaving { s with crew := before ++ .free :: behind }) := by
    rw [leaving_eq hcrew, leaving_eq (s := { s with crew := _ }) rfl]
    exact List.perm_middle
  exact { h with
    crew := by simpa [hcrew] using h.crew
    held := (List.Perm.of_eq hheld).trans h.held
    runs := by
      refine List.Perm.trans ?_ h.runs
      rw [List.map_append, List.append_assoc _ (List.map _ [(id, how)])]
      exact (hleaving.symm.append_left _).append (List.Perm.of_eq hheld)
    counter := by
      have hcounter := h.counter
      have hmore := hleaving.length_eq
      rw [List.length_cons] at hmore
      show s.counter - 1 = s.pool.pending + s.offering.length + s.shed.length +
        (Roster.leaving { s with crew := before ++ .free :: behind }).length
      omega }

end Workers

theorem step (h : s.Sound workers queue) (hs : s.Step s') : s'.Sound workers queue := by
  cases hs with
  | raise t => exact h.raise t
  | accept hoffer hp => exact h.accept hoffer hp
  | refuse hoffer _ => exact h.refuse hoffer
  | withdraw hshed => exact h.withdraw hshed
  | begin hcrew hp => exact h.begin hcrew hp
  | work hruns => exact h.work hruns
  | leave how hcrew => exact h.leave how hcrew
  | settle hcrew => exact h.settle hcrew

/-! ## What the books tell -/

theorem running_le (h : s.Sound workers queue) : s.pool.running.length ≤ max workers 1 := by
  have hheld := h.held.length_eq
  rw [List.length_map] at hheld
  rw [← hheld, ← h.crew]
  exact List.length_filterMap_le _ _

/-- A task is refused when every place is taken, and only then. -/
theorem submit?_eq_none_iff (h : s.Sound workers queue) (t : Task) :
    s.pool.submit? t = none ↔ s.pool.waiting.length = max queue 1 := by
  have hle := h.waiting_le
  rw [h.places] at hle
  rw [Pool.submit?, h.places]
  split_ifs with hroom
  · exact iff_of_false id hroom.ne
  · exact iff_of_true rfl (le_antisymm hle (not_lt.1 hroom))

theorem nodup_calls (h : s.Sound workers queue) :
    (s.accepted.map Prod.fst ++ s.refused ++ s.offering.map Prod.fst).Nodup :=
  h.calls.nodup_iff.2 List.nodup_range

theorem refused_not_accepted (h : s.Sound workers queue) {n : ℕ} (hn : n ∈ s.refused) :
    n ∉ s.accepted.map Prod.fst := fun ha =>
  List.disjoint_of_nodup_append (List.nodup_append.1 h.nodup_calls).1 ha hn

theorem length_begun (h : s.Sound workers queue) : s.begun.length = s.pool.started := by
  have hlength := congrArg List.length h.begun
  rwa [List.length_map, List.length_range] at hlength

/-- A run has the task of the call that was accepted in its place. -/
theorem begun_eq_take (h : s.Sound workers queue) :
    s.begun.map Prod.snd = (s.accepted.take s.pool.started).map Prod.snd := by
  rw [List.map_take, ← h.accepted, List.take_left']
  rw [List.length_map, h.length_begun]

/-- Every run is there, being left, or ended, and none is in two of these. -/
theorem started_eq (h : s.Sound workers queue) :
    s.pool.started = s.ended.length + s.leaving.length + s.pool.running.length := by
  have hruns := h.runs.length_eq
  have hheld := h.held.length_eq
  simp only [List.length_append, List.length_map, List.length_range] at hruns hheld
  omega

theorem length_accepted (h : s.Sound workers queue) :
    s.accepted.length = s.pool.started + s.pool.waiting.length := by
  have haccepted := congrArg List.length h.accepted
  have hbegun := h.length_begun
  simp only [List.length_append, List.length_map] at haccepted
  omega

/-- Of the calls so far those are counted whose task has not ended and whose
refusal has not been taken back. -/
theorem counter_add (h : s.Sound workers queue) :
    s.counter + s.ended.length + s.refused.length = s.calls + s.shed.length := by
  have hcalls := h.calls.length_eq
  have hcounter := h.counter
  have hpending := h.pending
  have hstarted := h.started_eq
  have haccepted := h.length_accepted
  simp only [List.length_append, List.length_map, List.length_range] at hcalls
  omega

/-- A worker is free, has a run, or leaves one. -/
theorem free_add (h : s.Sound workers queue) :
    s.crew.count .free + s.leaving.length + s.pool.running.length = max workers 1 := by
  have hcount : ∀ crew : List Duty, crew.count .free + (crew.filterMap Duty.left?).length +
      (crew.filterMap Duty.run?).length = crew.length := by
    intro crew
    induction crew with
    | nil => rfl
    | cons d rest ih =>
      cases d <;> simp [Duty.left?, Duty.run?, List.filterMap_cons] <;> omega
  have hheld := h.held.length_eq
  rw [List.length_map] at hheld
  rw [← hheld, ← h.crew]
  exact hcount s.crew

/-- When the counter is at zero, everything that was accepted has ended. -/
theorem idle (h : s.Sound workers queue) (hzero : s.counter = 0) :
    s.pool.waiting = [] ∧ s.pool.running = [] ∧ s.offering = [] ∧ s.shed = [] ∧
      s.crew.count .free = max workers 1 ∧ s.begun.map Prod.snd = s.accepted.map Prod.snd ∧
        (s.ended.map Prod.fst).Perm (List.range s.accepted.length) := by
  have hcounter := h.counter
  have hpending := h.pending
  have hfree := h.free_add
  have hwaiting : s.pool.waiting = [] := List.eq_nil_of_length_eq_zero (by omega)
  have hrunning : s.pool.running = [] := List.eq_nil_of_length_eq_zero (by omega)
  have hleaving : s.leaving = [] := List.eq_nil_of_length_eq_zero (by omega)
  have hheld : s.held = [] := by simpa [hrunning] using h.held
  refine ⟨hwaiting, hrunning, List.eq_nil_of_length_eq_zero (by omega),
    List.eq_nil_of_length_eq_zero (by omega), by simpa [hrunning, hleaving] using hfree, ?_, ?_⟩
  · rw [← h.accepted, hwaiting, List.append_nil]
  · have hruns := h.runs
    rw [hleaving, hheld, List.append_nil, List.append_nil] at hruns
    rwa [h.length_accepted, hwaiting]

end Sound

/-! ## Draining -/

variable {workers queue timeout : ℕ} {s s' : Roster}

theorem Sound.steps (h : s.Sound workers queue) (hs : Relation.ReflTransGen Step s s') :
    s'.Sound workers queue := by
  induction hs with
  | refl => exact h
  | tail _ hs ih => exact ih.step hs

theorem Reachable.sound (h : s.Reachable workers queue timeout) : s.Sound workers queue :=
  Sound.start.steps h

/-- How many steps are left at most until everything that was called has ended. -/
def debt (s : Roster) : ℕ :=
  4 * s.offering.length + 3 * s.pool.waiting.length + 2 * s.held.length + s.leaving.length +
    s.shed.length

/-- A step of a call or worker that brings it nearer to its end. -/
def Nearer (s s' : Roster) : Prop := s.Step s' ∧ s'.debt < s.debt ∧ s'.calls = s.calls

/-- A call that was counted is offered, one that was refused is taken back. -/
theorem exists_nearer_of_call (h : s.offering ≠ [] ∨ s.shed ≠ []) : ∃ s', s.Nearer s' := by
  cases hoffer : s.offering with
  | cons offer rest =>
    obtain ⟨n, t⟩ := offer
    have hfirst : s.offering = [] ++ (n, t) :: rest := hoffer
    cases hp : s.pool.submit? t with
    | none =>
      refine ⟨_, .refuse hfirst hp, ?_, rfl⟩
      simp only [debt, Roster.held, Roster.leaving, hoffer, List.nil_append, List.length_append,
        List.length_cons, List.length_nil]
      omega
    | some p =>
      refine ⟨_, .accept hfirst hp, ?_, rfl⟩
      obtain ⟨-, rfl⟩ := Pool.submit?_eq_some_iff.1 hp
      simp only [debt, Roster.held, Roster.leaving, hoffer, List.nil_append, List.length_append,
        List.length_cons, List.length_nil]
      omega
  | nil =>
    obtain ⟨n, rest, hshed⟩ := List.exists_cons_of_ne_nil (h.resolve_left (· hoffer))
    have hfirst : s.shed = [] ++ n :: rest := hshed
    refine ⟨_, .withdraw hfirst, ?_, rfl⟩
    simp only [debt, Roster.held, Roster.leaving, hshed, List.nil_append, List.length_cons]
    omega

/-- A worker that is not free comes to the end of its run and leaves it. -/
theorem exists_nearer_of_duty {d : Duty} (hd : d ∈ s.crew) (hfree : d ≠ .free) :
    ∃ s', s.Nearer s' := by
  obtain ⟨before, behind, hcrew⟩ := List.append_of_mem hd
  cases d with
  | free => exact absurd rfl hfree
  | busy id =>
    refine ⟨_, .leave .finished hcrew, ?_, rfl⟩
    simp only [debt, Roster.held, Roster.leaving, hcrew, List.filterMap_append,
      List.filterMap_cons, Duty.run?, Duty.left?, List.length_append, List.length_cons, Pool.finish]
    omega
  | leaving id how =>
    refine ⟨_, .settle hcrew, ?_, rfl⟩
    simp only [debt, Roster.held, Roster.leaving, hcrew, List.filterMap_append,
      List.filterMap_cons, Duty.run?, Duty.left?, List.length_append, List.length_cons]
    omega

/-- A free worker begins what waits. -/
theorem exists_nearer_of_waiting (hfree : .free ∈ s.crew) (h : s.pool.waiting ≠ []) :
    ∃ s', s.Nearer s' := by
  obtain ⟨before, behind, hcrew⟩ := List.append_of_mem hfree
  obtain ⟨t, rest, hwaiting⟩ := List.exists_cons_of_ne_nil h
  refine ⟨_, .begin hcrew (show s.pool.start? 0 = _ by rw [Pool.start?, hwaiting]), ?_, rfl⟩
  simp only [debt, Roster.held, Roster.leaving, hcrew, hwaiting, List.filterMap_append,
    List.filterMap_cons, Duty.run?, Duty.left?, List.length_append, List.length_cons]
  omega

/-- As long as something is counted a call or a worker can go on. -/
theorem Sound.exists_nearer (h : s.Sound workers queue) (hcounted : s.counter ≠ 0) :
    ∃ s', s.Nearer s' := by
  have hcounter := h.counter
  have hpending := h.pending
  by_cases hcalls : s.offering ≠ [] ∨ s.shed ≠ []
  · exact exists_nearer_of_call hcalls
  by_cases hduty : ∃ d ∈ s.crew, d ≠ .free
  · obtain ⟨d, hd, hfree⟩ := hduty
    exact exists_nearer_of_duty hd hfree
  -- all workers are free, so what is counted waits
  push Not at hcalls hduty
  have hall := List.count_eq_length.2 fun d hd => (hduty d hd).symm
  have hcount := h.free_add
  have hcrew := h.crew
  have hfree : .free ∈ s.crew := List.count_pos_iff.1 (by omega)
  refine exists_nearer_of_waiting hfree fun hwaiting => hcounted ?_
  rw [hcounter, hpending, hcalls.1, hcalls.2, hwaiting]
  simp only [List.length_nil]
  omega

/-- Without new calls the counter can always come to zero. -/
theorem Sound.drains (h : s.Sound workers queue) :
    ∃ s', Relation.ReflTransGen Step s s' ∧ s'.counter = 0 ∧ s'.calls = s.calls := by
  induction hdebt : s.debt using Nat.strong_induction_on generalizing s with
  | _ n ih =>
    by_cases hcounted : s.counter = 0
    · exact ⟨s, .refl, hcounted, rfl⟩
    · obtain ⟨s₁, hs, hless, hcalls⟩ := h.exists_nearer hcounted
      obtain ⟨s₂, hrest, hzero, hcalls'⟩ := ih _ (hdebt ▸ hless) (h.step hs) rfl
      exact ⟨s₂, .head hs hrest, hzero, hcalls'.trans hcalls⟩

end Roster
end FilmCatalog
