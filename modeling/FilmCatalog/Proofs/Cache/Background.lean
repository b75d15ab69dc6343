import FilmCatalog.Cache.System
import FilmCatalog.Proofs.Cache.Accounting

/-!
# Background work and its books

Background work is done in pieces: somebody who is ready is served, those who
yielded become ready, the clock goes on, what is due is woken. The foreground
submits tasks between two pieces, opens gates and calls the backend.

Whatever happens, the pool of a system is the pool of some roster, in which no
call and no worker is in the middle of something. The free workers of the
roster are those that stand in line or are on their way to it. Background work
takes the roster along by steps of its workers alone, so this holds of every
set of rosters that workers do not leave.

A look at a run has one of five outcomes. Every proof about what becomes of a
system goes through these.

Key definitions: `CacheSystem.Work`, `CacheSystem.Act`, `CacheSystem.Reached`, `CacheSystem.Blind`,
`CacheSystem.Looked`, `Roster.Closed`, `CacheSystem.Kept`.
Key theorems: `CacheSystem.look_cases`, `CacheSystem.Kept.works`, `CacheSystem.Kept.act`,
`CacheSystem.Reached.kept`.
-/

namespace FilmCatalog

namespace Pool

variable {β : Type*} {view : Run → β} {key : β → ℕ} {f : Run → Run} (p : Pool) (id : ℕ)

/-- A change of a run does not show where it is not seen. -/
theorem map_modify (hf : ∀ r, view (f r) = view r) :
    (p.modify id f).running.map view = p.running.map view := by
  rw [modify, List.map_map]
  refine List.map_congr_left fun r _ => ?_
  rw [Function.comp_apply]
  split
  · exact hf r
  · rfl

/-- It shows in what is seen of that run. -/
theorem map_modify_of_key {g : β → β} (hkey : ∀ r, key (view r) = r.id)
    (hf : ∀ r, view (f r) = g (view r)) :
    (p.modify id f).running.map view =
      (p.running.map view).map fun b => if key b = id then g b else b := by
  rw [modify, List.map_map, List.map_map]
  refine List.map_congr_left fun r _ => ?_
  simp only [Function.comp_apply, hkey]
  split
  · exact hf r
  · rfl

theorem map_finish (hkey : ∀ r, key (view r) = r.id) :
    (p.finish id).running.map view = (p.running.map view).filter fun b => key b != id := by
  rw [finish, List.filter_map]
  simp only [Function.comp_def, hkey]

variable {p : Pool} {id : ℕ} {r : Run}

theorem mem_of_find? (h : p.find? id = some r) : r ∈ p.running := List.mem_of_find?_eq_some h

theorem id_of_find? (h : p.find? id = some r) : r.id = id := by simpa using List.find?_some h

end Pool

namespace CacheSystem

/-! ## Pieces of work -/

/-- One piece of background work. -/
inductive Work (s : CacheSystem) : CacheSystem → Prop where
  | serve {turn : Turn} {rest : List Turn} (h : s.ready = turn :: rest) :
      Work s ({ s with ready := rest }.serve turn)
  /-- Those who yielded are ready when nobody else is. -/
  | turnBack (h : s.ready = []) : Work s { s with ready := s.yielded, yielded := [] }
  | tick (time : ℕ) : Work s { s with now := max s.now time }
  | fire : Work s s.fire

/-- Background work of any length. -/
abbrev Works : CacheSystem → CacheSystem → Prop := Relation.ReflTransGen Work

/-- What changes a system: background work, a task of the foreground, or a
backend that was called or told how to behave. -/
inductive Act (tasks : Task → Prop) (s : CacheSystem) : CacheSystem → Prop where
  | work {s' : CacheSystem} (h : s.Work s') : Act tasks s s'
  | submit {t : Task} (h : tasks t) : Act tasks s (s.submit t).2
  | openGate (name : String) : Act tasks s (s.openGate name)
  | count (c : Counter) (ns : Namespace) : Act tasks s (s.count c ns)
  | probe (p : Probe) : Act tasks s { s with probe := p }

/-- What comes of a system without entries and tasks, if some tasks are submitted to it. -/
def Reached (capacity workers queue timeout : ℕ) (tasks : Task → Prop) (s : CacheSystem) : Prop :=
  Relation.ReflTransGen (Act tasks) (start capacity workers queue timeout) s

/-! ## What is not seen of background work -/

/-- Whether a view of a system does not see which runs are woken, hold stripes or wait for what. -/
structure Blind {β : Type*} (view : CacheSystem → β) : Prop where
  modify : ∀ (s : CacheSystem) (id : ℕ) (f : Run → Run),
    (∀ r, ((f r).id, (f r).task, (f r).deadline, (f r).rest, (f r).paid) =
      (r.id, r.task, r.deadline, r.rest, r.paid)) →
    view { s with pool := s.pool.modify id f } = view s
  turn : ∀ (s : CacheSystem) (id : ℕ), view { s with ready := s.ready ++ [.resume id] } = view s
  lines : ∀ (s : CacheSystem) timers stripeLine gateLine openGates,
    view { s with
      timers := timers
      stripeLine := stripeLine
      gateLine := gateLine
      openGates := openGates } = view s

namespace Blind

variable {β : Type*} {view : CacheSystem → β} (h : Blind view) (s : CacheSystem) (id : ℕ)
include h

theorem wake : view (s.wake id) = view s := by
  rw [CacheSystem.wake]
  split
  · rfl
  · split
    · rfl
    · have hwoken := h.modify s id (fun r => { r with woken := true }) fun _ => rfl
      exact (h.turn { s with pool := s.pool.modify id fun r => { r with woken := true } } id).trans
        hwoken

theorem hold (i : ℕ) : view (s.hold id i) = view s :=
  h.modify s id (fun r => { r with held := r.held ++ [i] }) fun _ => rfl

theorem release : view (s.release id) = view s :=
  (h.wake _ id).trans (h.modify s id (fun r => { r with wait := .granted }) fun _ => rfl)

theorem passOn (i : ℕ) : view (s.passOn i) = view s := by
  rw [CacheSystem.passOn]
  split
  · rfl
  · exact (h.release _ _).trans ((h.hold _ _ i).trans (h.lines s _ _ _ _))

theorem passOn_all (held : List ℕ) : view (held.foldl CacheSystem.passOn s) = view s := by
  induction held generalizing s with
  | nil => rfl
  | cons i rest ih => exact (ih _).trans (h.passOn s i)

theorem openGate (name : String) : view (s.openGate name) = view s := by
  rw [CacheSystem.openGate]
  split
  · exact h.lines s _ _ _ _
  · exact (h.release _ _).trans (h.lines s _ _ _ _)

theorem fire : view s.fire = view s := by
  have hwakes : ∀ (due : List (ℕ × ℕ)) (s : CacheSystem),
      view (due.foldl (fun s t => s.wake t.2) s) = view s := by
    intro due
    induction due with
    | nil => exact fun s => rfl
    | cons t rest ih => exact fun s => (ih _).trans (h.wake s t.2)
  exact (hwakes _ _).trans (h.lines s _ _ _ _)

end Blind

/-- What a job does until it halts concerns the backend, stripes, gates and counters only. -/
theorem perform_frame {β : Type*} {view : CacheSystem → β} {id : ℕ}
    (hhold : ∀ s i, view (s.hold id i) = view s)
    (hrest : ∀ (s : CacheSystem) probe left stripeLine gateLine openGates counted,
      view { s with
        probe := probe
        left := left
        stripeLine := stripeLine
        gateLine := gateLine
        openGates := openGates
        counted := counted } = view s) (job : Job) (paid : Bool) (s : CacheSystem) :
    view (perform id job paid s).2 = view s := by
  have hspend (s : CacheSystem) : view s.spend = view s := hrest s _ _ _ _ _ _
  induction job generalizing paid s with
  | done => rfl
  | panic => rfl
  | lock i next ih =>
    rw [perform]
    split_ifs
    · rfl
    · exact (ih false _).trans ((hhold s.spend i).trans (hspend s))
    · exact hrest s _ _ _ _ _ _
  | get key next ih =>
    rw [perform]
    split_ifs
    · exact (ih _ false _).trans (hrest s _ _ _ _ _ _)
    · rfl
  | set key value ttl next ih =>
    rw [perform]
    split_ifs
    · split
      · exact (ih _ false _).trans (hrest s _ _ _ _ _ _)
      · exact hrest s _ _ _ _ _ _
    · rfl
  | delete key next ih =>
    rw [perform]
    split_ifs
    · exact (ih _ false _).trans (hrest s _ _ _ _ _ _)
    · rfl
  | count c ns next ih => exact (ih false _).trans (hrest s _ _ _ _ _ _)
  | sleep ms next ih =>
    rw [perform]
    split_ifs
    · rfl
    · rfl
    · exact (ih false _).trans (hspend s)
  | gate name next ih =>
    rw [perform]
    split_ifs
    · rfl
    · exact (ih false _).trans (hrest s _ _ _ _ _ _)
    · exact hrest s _ _ _ _ _ _

/-! ## Looking at a run -/

/-- A system in which a run is asleep. -/
def asleep (s : CacheSystem) (id : ℕ) : CacheSystem :=
  { s with pool := s.pool.modify id fun r => { r with woken := false } }

/-- A system in which a run may go on; the end of a wait was a step of the turn. -/
def resumed (s : CacheSystem) (r : Run) : CacheSystem :=
  if r.wait = .nothing then s.asleep r.id else (s.asleep r.id).spend

/-- How a run goes on until it halts. -/
def goOn (s : CacheSystem) (r : Run) : Halt × CacheSystem :=
  perform r.id r.rest r.paid (s.resumed r)

/-- What a system in which a run is looked at may come to. -/
inductive Looked (s : CacheSystem) : ℕ → CacheSystem → Prop where
  | gone {id : ℕ} (h : s.pool.find? id = none) : Looked s id s
  | ended {r : Run} (finished : List String) (hr : s.pool.find? r.id = some r)
      (hgo : s.canGoOn r = true) (h : (s.goOn r).1 = .ended ∨ (s.goOn r).1 = .panicked) :
      Looked s r.id { (s.goOn r).2.endRun r.id with finished := finished }
  | halted {r : Run} {rest : Job} {paid : Bool} {on : Wait} (hr : s.pool.find? r.id = some r)
      (hgo : s.canGoOn r = true) (h : (s.goOn r).1 = .waits rest paid on) :
      Looked s r.id ((s.goOn r).2.suspend r rest paid on)
  | late {r : Run} (hr : s.pool.find? r.id = some r) (h : r.deadline ≤ s.now) :
      Looked s r.id ((s.asleep r.id).cutOff r)
  /-- It was woken too early. -/
  | early {r : Run} (hr : s.pool.find? r.id = some r) (h : s.now < r.deadline) :
      Looked s r.id (s.asleep r.id)

theorem look_cases (s : CacheSystem) (id : ℕ) : s.Looked id (s.look id) := by
  rw [look]
  split
  · rename_i hnone
    exact .gone hnone
  · rename_i r hr
    obtain rfl := Pool.id_of_find? hr
    simp only
    split
    · rename_i hgo
      split
      · rename_i s' heq
        have hends := Looked.ended (r.task.label :: s'.finished) hr hgo
          (.inl (congrArg Prod.fst heq))
        rwa [show s.goOn r = _ from heq] at hends
      · rename_i s' heq
        have hends := Looked.ended (s'.endRun r.id).finished hr hgo (.inr (congrArg Prod.fst heq))
        rwa [show s.goOn r = _ from heq] at hends
      · rename_i heq
        have hhalts := Looked.halted hr hgo (congrArg Prod.fst heq)
        rwa [show s.goOn r = _ from heq] at hhalts
    · split
      · rename_i hlate
        exact .late hr hlate
      · rename_i hearly
        exact .early hr (not_le.1 hearly)

/-- What does not show the steps of a turn shows a run that may go on as asleep. -/
theorem resumed_frame {β : Type*} {view : CacheSystem → β}
    (hspend : ∀ s : CacheSystem, view s.spend = view s) (s : CacheSystem) (r : Run) :
    view (s.resumed r) = view (s.asleep r.id) := by
  rw [resumed]
  split
  · rfl
  · exact hspend _

/-- What is not seen of stripes, gates and counters is not seen of a run that goes on. -/
theorem goOn_frame {β : Type*} {view : CacheSystem → β}
    (hhold : ∀ s id i, view (hold s id i) = view s)
    (hrest : ∀ (s : CacheSystem) probe left stripeLine gateLine openGates counted,
      view { s with
        probe := probe
        left := left
        stripeLine := stripeLine
        gateLine := gateLine
        openGates := openGates
        counted := counted } = view s) (s : CacheSystem) (r : Run) :
    view (s.goOn r).2 = view (s.asleep r.id) :=
  (perform_frame (fun s => hhold s r.id) hrest r.rest r.paid _).trans
    (resumed_frame (fun s => hrest s _ _ _ _ _ _) s r)

/-! ## The staff of a system -/

/-- What the books of a system and the line of its workers are about. -/
@[ext]
structure Staff where
  /-- The pool without its runs. -/
  pool : Pool
  /-- The ids and tasks of its runs. -/
  runs : List (ℕ × Task)
  parked : ℕ
  headReady : Bool
  /-- How many workers are on their way to the line. -/
  arrivals : ℕ
  /-- How many turns the head of the line has. -/
  heads : ℕ

/-- The staff of a system. -/
def staff (s : CacheSystem) : Staff where
  pool := { s.pool with running := [] }
  runs := s.pool.running.map fun r => (r.id, r.task)
  parked := s.parked
  headReady := s.headReady
  arrivals := (s.ready ++ s.yielded).count .arrive
  heads := (s.ready ++ s.yielded).count .head + (s.ready ++ s.yielded).count .again

section Staff
variable (s : CacheSystem) (id : ℕ)

/-- A run may change in whatever is not its id or its task. -/
theorem staff_modify {f : Run → Run} (hf : ∀ r, ((f r).id, (f r).task) = (r.id, r.task)) :
    staff { s with pool := s.pool.modify id f } = s.staff :=
  Staff.ext rfl (s.pool.map_modify id hf) rfl rfl rfl rfl

/-- The staff does not see who waits for what. -/
theorem staff_blind : Blind staff where
  modify s id _ hf := staff_modify s id fun r => congrArg (fun p => (p.1, p.2.1)) (hf r)
  turn s id := by simp [staff, List.count_append]
  lines _ _ _ _ _ := rfl

theorem staff_asleep : (s.asleep id).staff = s.staff := staff_modify s id fun _ => rfl

/-- What a run does until it halts is no matter of the staff. -/
theorem staff_goOn (r : Run) : (s.goOn r).2.staff = s.staff :=
  (goOn_frame (fun s => staff_blind.hold s) (fun _ _ _ _ _ _ _ => rfl) s r).trans
    (staff_asleep s r.id)

/-- One more turn for the head of the line. -/
theorem staff_turn (s' : CacheSystem) {turn : Turn} (hturn : turn = .head ∨ turn = .again)
    (h : (s'.ready ++ s'.yielded).Perm (turn :: (s.ready ++ s.yielded))) :
    s'.staff.arrivals = s.staff.arrivals ∧ s'.staff.heads = s.staff.heads + 1 := by
  simp only [staff, h.count_eq, List.count_cons]
  rcases hturn with rfl | rfl
  · exact ⟨rfl, Nat.add_right_comm _ _ _⟩
  · exact ⟨rfl, rfl⟩

variable {s id}

theorem ids_eq_of_staff {s' : CacheSystem} (h : s'.staff = s.staff) :
    s'.pool.running.map (·.id) = s.pool.running.map (·.id) := by
  have hids := congrArg (List.map Prod.fst) (congrArg Staff.runs h)
  simp only [staff, List.map_map] at hids
  exact hids

theorem mem_ids_of_find? {s' : CacheSystem} {r : Run} (hr : s.pool.find? r.id = some r)
    (h : s'.staff = s.staff) : r.id ∈ s'.pool.running.map (·.id) :=
  ids_eq_of_staff h ▸ List.mem_map_of_mem (Pool.mem_of_find? hr)

end Staff

end CacheSystem

/-! ## The roster of a system -/

/-- What was called, and what became of the calls. -/
def Roster.called (t : Roster) : ℕ × List (ℕ × Task) × List ℕ := (t.calls, t.accepted, t.refused)

/-- Whether rosters are left by calls only, not by what workers do. -/
class Roster.Closed (P : Roster → Prop) : Prop where
  sound {t : Roster} (h : P t) : ∃ workers queue, t.Sound workers queue
  step {t t' : Roster} (h : P t) (hs : t.Step t') (hcalled : t'.called = t.called) : P t'

instance Roster.closed_reachable (workers queue timeout : ℕ) :
    Closed (Reachable workers queue timeout) where
  sound h := ⟨_, _, Reachable.sound h⟩
  step h hs _ := Relation.ReflTransGen.tail h hs

/-- What workers can come to from a roster. -/
def Roster.Ahead (t t' : Roster) : Prop := Relation.ReflTransGen Step t t' ∧ t'.called = t.called

theorem Roster.closed_ahead {workers queue : ℕ} {t : Roster} (h : t.Sound workers queue) :
    Closed t.Ahead where
  sound := fun ⟨hsteps, _⟩ => ⟨workers, queue, h.steps hsteps⟩
  step := fun ⟨hsteps, hcalled⟩ hs hsame => ⟨hsteps.tail hs, hsame.trans hcalled⟩

namespace CacheSystem

/-- Whether the pool of a system is that of one of these rosters, in which nothing is under
way. The free workers stand in line or are on their way to it, up to some that
have just ended a run. -/
structure Kept (P : Roster → Prop) (loose : ℕ) (s : CacheSystem) : Prop where
  books : ∃ t : Roster, P t ∧ t.pool = s.pool ∧ t.offering = [] ∧
    t.shed = [] ∧ t.leaving = [] ∧ t.crew.count .free = s.parked + s.staff.arrivals + loose
  /-- The head of the line has a turn when it is ready, and only then. -/
  heads : s.staff.heads = s.headReady.toNat
  line : s.headReady = true → 0 < s.parked

namespace Kept

theorem start (capacity workers queue timeout : ℕ) :
    Kept (Roster.Reachable workers queue timeout) 0 (start capacity workers queue timeout) where
  books := by
    refine ⟨.start workers queue timeout, .refl, rfl, rfl, rfl, ?_, ?_⟩
    · simp [Roster.leaving, Roster.start, Duty.left?]
    · simp [Roster.start, CacheSystem.start, staff, Pool.empty]
  heads := by simp [CacheSystem.start, staff, List.count_replicate]
  line := by simp [CacheSystem.start]

variable {P : Roster → Prop} [Roster.Closed P] {loose : ℕ} {s s' : CacheSystem}

/-- What leaves the staff as it is keeps the books. -/
theorem of_staff (h : Kept P loose s) (hs : s'.staff = s.staff) : Kept P loose s' where
  books := by
    obtain ⟨t, ht, hpool, hoffer, hshed, hleaving, hfree⟩ := h.books
    have hruns := congrArg Staff.runs hs
    have hbare := congrArg Staff.pool hs
    have hparked := congrArg Staff.parked hs
    refine ⟨{ t with pool := { t.pool with running := s'.pool.running } },
      Roster.Closed.step ht (.work (by rw [hpool]; exact hruns)) rfl, ?_, hoffer, hshed, hleaving,
      ?_⟩
    · rw [hpool]
      exact congrArg (fun p : Pool => { p with running := s'.pool.running }) hbare.symm
    · rw [hs, show s'.parked = s.parked from hparked]
      exact hfree
  heads := by
    rw [hs, show s'.headReady = s.headReady from congrArg Staff.headReady hs]
    exact h.heads
  line := by
    rw [show s'.headReady = s.headReady from congrArg Staff.headReady hs,
      show s'.parked = s.parked from congrArg Staff.parked hs]
    exact h.line

omit [Roster.Closed P] in
/-- The head of the line becomes ready. -/
theorem wakeHead (h : Kept P loose s) : Kept P loose s.wakeHead := by
  rw [CacheSystem.wakeHead]
  split
  · exact h
  · rename_i hline
    obtain ⟨hparked, hready⟩ : s.parked ≠ 0 ∧ s.headReady = false := by simpa using hline
    obtain ⟨t, ht, hpool, hoffer, hshed, hleaving, hfree⟩ := h.books
    have hturn := staff_turn s { s with headReady := true, ready := s.ready ++ [.head] } (.inl rfl)
      (by simp [List.perm_middle])
    refine ⟨⟨t, ht, hpool, hoffer, hshed, hleaving, ?_⟩, ?_, fun _ => Nat.pos_of_ne_zero hparked⟩
    · rw [hturn.1]
      exact hfree
    · rw [hturn.2, h.heads, hready]
      rfl

theorem submit {workers queue timeout : ℕ}
    (h : Kept (Roster.Reachable workers queue timeout) loose s) (t : Task) :
    Kept (Roster.Reachable workers queue timeout) loose (s.submit t).2 := by
  obtain ⟨r, hr, hpool, hoffer, hshed, hleaving, hfree⟩ := h.books
  have hraise := Relation.ReflTransGen.tail hr (.raise t)
  have hcall : r.offering ++ [(r.calls, t)] = [] ++ (r.calls, t) :: [] := by rw [hoffer]
  rw [CacheSystem.submit]
  split
  · rename_i hfull
    -- the count is taken back at once
    have hrefuse := hraise.tail (.refuse hcall (hpool ▸ hfull))
    have hlast : r.shed ++ [r.calls] = [] ++ r.calls :: [] := by rw [hshed]
    have hback := hrefuse.tail (.withdraw hlast)
    exact of_staff (s := s) ⟨⟨_, hback, hpool, rfl, rfl, hleaving, hfree⟩, h.heads, h.line⟩ rfl
  · rename_i p hp
    have haccept := hraise.tail (.accept hcall (hpool ▸ hp))
    exact wakeHead ⟨⟨_, haccept, rfl, rfl, hshed, hleaving, hfree⟩, h.heads, h.line⟩

/-- A run ends, and its worker has yet to join the line. -/
theorem finish (h : Kept P loose s) {id : ℕ}
    (hid : id ∈ s.pool.running.map (·.id)) :
    Kept P (loose + 1) { s with pool := s.pool.finish id } where
  books := by
    obtain ⟨t, ht, hpool, hoffer, hshed, hleaving, hfree⟩ := h.books
    obtain ⟨workers, queue, hsound⟩ := Roster.Closed.sound ht
    obtain ⟨d, hd, hrun⟩ : ∃ d ∈ t.crew, d.run? = some id :=
      List.mem_filterMap.1 (hsound.held.mem_iff.2 (hpool ▸ hid))
    obtain rfl : d = .busy id := by
      cases d <;> simp_all [Duty.run?]
    obtain ⟨before, behind, hcrew⟩ := List.append_of_mem hd
    have hleave := Roster.Closed.step ht (.leave .finished hcrew) rfl
    refine ⟨_, Roster.Closed.step hleave (.settle rfl) rfl, congrArg (Pool.finish · id) hpool,
      hoffer, hshed, ?_, ?_⟩
    · rw [Roster.leaving, hcrew] at hleaving
      simpa [Roster.leaving, Duty.left?] using hleaving
    · rw [hcrew] at hfree
      simp [List.count_append, staff] at hfree ⊢
      omega
  heads := h.heads
  line := h.line

omit [Roster.Closed P] in
/-- A worker joins the line or sets out to it. -/
theorem rejoin (h : Kept P (loose + 1) s) :
    Kept P loose s.rejoin := by
  obtain ⟨t, ht, hpool, hoffer, hshed, hleaving, hfree⟩ := h.books
  rw [CacheSystem.rejoin]
  split
  · refine ⟨⟨t, ht, hpool, hoffer, hshed, hleaving, ?_⟩, ?_, h.line⟩
    · simp [staff, List.count_append] at hfree ⊢
      omega
    · simpa [staff, List.count_append] using h.heads
  · split
    · rename_i hparked
      have hready : s.headReady = false := by
        by_contra hready
        exact (h.line (by simpa using hready)).ne' hparked
      have hturn := staff_turn s { s.spend with
        parked := 1
        headAtQueue := true
        headReady := true
        ready := .again :: s.ready } (.inr rfl) (.refl _)
      refine ⟨⟨t, ht, hpool, hoffer, hshed, hleaving, ?_⟩, ?_, fun _ => Nat.one_pos⟩
      · show t.crew.count .free = 1 + _ + loose
        rw [hturn.1, hfree, hparked]
        omega
      · rw [hturn.2, h.heads, hready]
        rfl
    · refine ⟨⟨t, ht, hpool, hoffer, hshed, hleaving, ?_⟩, h.heads, fun _ => Nat.succ_pos _⟩
      simp only [staff] at hfree ⊢
      omega

theorem endRun (h : Kept P loose s) {id : ℕ}
    (hid : id ∈ s.pool.running.map (·.id)) : Kept P loose (s.endRun id) :=
  rejoin ((h.finish hid).of_staff (staff_blind.passOn_all _ _))

theorem cutOff (h : Kept P loose s) {r : Run}
    (hr : r.id ∈ s.pool.running.map (·.id)) : Kept P loose (s.cutOff r) :=
  endRun (s := s.count .timeout r.task.ns) (h.of_staff rfl) hr

theorem suspend (h : Kept P loose s) {r : Run}
    (hr : r.id ∈ s.pool.running.map (·.id)) (rest : Job) (paid : Bool) (on : Wait) :
    Kept P loose (s.suspend r rest paid on) := by
  rw [CacheSystem.suspend]
  split
  · exact h.cutOff hr
  · have hset := h.of_staff (staff_modify s r.id (f := fun r => { r with rest, paid, wait := on })
      fun _ => rfl)
    cases on with
    | nothing =>
      exact hset.of_staff (Staff.ext rfl (Pool.map_modify _ r.id fun _ => rfl) rfl rfl
        (by simp [staff, List.count_append]) (by simp [staff, List.count_append]))
    | granted => exact hset
    | «until» t => exact hset.of_staff rfl
    | stripe i => exact hset
    | gate name => exact hset

theorem look (h : Kept P loose s) (id : ℕ) :
    Kept P loose (s.look id) := by
  have hlook := s.look_cases id
  generalize s.look id = s₁ at hlook ⊢
  cases hlook with
  | gone => exact h
  | @ended r finished hr _ _ =>
    have hgoes := staff_goOn s r
    exact ((h.of_staff hgoes).endRun (mem_ids_of_find? hr hgoes)).of_staff rfl
  | @halted r _ _ _ hr _ _ =>
    have hgoes := staff_goOn s r
    exact (h.of_staff hgoes).suspend (mem_ids_of_find? hr hgoes) _ _ _
  | @late r hr _ =>
    have hsame := staff_asleep s r.id
    exact (h.of_staff hsame).cutOff (mem_ids_of_find? hr hsame)
  | @early r _ _ => exact h.of_staff (staff_asleep s r.id)

/-- The head of the line is at the queue. -/
theorem takeTask (h : Kept P loose s) (hready : s.headReady = false)
    (hparked : 0 < s.parked) : Kept P loose s.takeTask := by
  obtain ⟨t, ht, hpool, hoffer, hshed, hleaving, hfree⟩ := h.books
  rw [CacheSystem.takeTask]
  split
  · have hturn := staff_turn s { s with headReady := true, yielded := s.yielded ++ [.head] }
      (.inl rfl) (by rw [← List.append_assoc]; exact List.perm_append_singleton _ _)
    refine ⟨⟨t, ht, hpool, hoffer, hshed, hleaving, ?_⟩, ?_, fun _ => hparked⟩
    · rw [hturn.1]
      exact hfree
    · rw [hturn.2, h.heads, hready]
      rfl
  · split
    · exact h
    · rename_i r p hp
      obtain ⟨before, behind, hcrew⟩ := List.append_of_mem
        (List.count_pos_iff.1 (by omega : 0 < t.crew.count .free))
      have hbegin := Roster.Closed.step ht (.begin hcrew (hpool ▸ hp)) rfl
      have hkept : Kept P loose { s.spend with
          pool := p
          parked := s.parked - 1
          headAtQueue := false
          timers := s.timers ++ [(r.deadline, r.id)] } := by
        refine ⟨⟨_, hbegin, rfl, hoffer, hshed, ?_, ?_⟩, h.heads, ?_⟩
        · rw [Roster.leaving, hcrew] at hleaving
          simpa [Roster.leaving, Duty.left?] using hleaving
        · rw [hcrew] at hfree
          simp [List.count_append, staff, CacheSystem.spend] at hfree ⊢
          omega
        · exact fun hback => absurd (hready.symm.trans hback) Bool.false_ne_true
      exact hkept.wakeHead.look r.id

theorem goToQueue (h : Kept P loose s) (hready : s.headReady = false)
    (hparked : 0 < s.parked) : Kept P loose s.goToQueue := by
  rw [CacheSystem.goToQueue]
  split
  · exact h.takeTask hready hparked
  · exact takeTask (s := { s.spend with headAtQueue := true }) (h.of_staff rfl) hready hparked

omit [Roster.Closed P] in
/-- The head of the line gets the thread. -/
theorem step_up (h : Kept P 0 s) {turn : Turn} {rest : List Turn}
    (hready : s.ready = turn :: rest) (hturn : turn = .head ∨ turn = .again) (left : ℕ) :
    Kept P 0 { s with ready := rest, left := left, headReady := false } ∧
      0 < s.parked := by
  obtain ⟨t, ht, hpool, hoffer, hshed, hleaving, hfree⟩ := h.books
  obtain ⟨harrivals, hheads⟩ := staff_turn
    { s with ready := rest, left := left, headReady := false } s hturn
    (by rw [hready]; exact .refl _)
  rw [h.heads] at hheads
  have hback : s.headReady = true := by
    by_contra hback
    rw [Bool.eq_false_iff.2 hback] at hheads
    exact absurd hheads (Nat.succ_ne_zero _).symm
  rw [hback] at hheads
  refine ⟨⟨⟨t, ht, hpool, hoffer, hshed, hleaving, ?_⟩, (Nat.succ.inj hheads).symm,
    fun hback => nomatch hback⟩, h.line hback⟩
  rw [hfree, harrivals]

theorem serve (h : Kept P 0 s) {turn : Turn} {rest : List Turn}
    (hready : s.ready = turn :: rest) :
    Kept P 0 ({ s with ready := rest }.serve turn) := by
  cases turn with
  | arrive =>
    refine rejoin ⟨?_, ?_, h.line⟩
    · obtain ⟨t, ht, hpool, hoffer, hshed, hleaving, hfree⟩ := h.books
      refine ⟨t, ht, hpool, hoffer, hshed, hleaving, ?_⟩
      simp only [staff, hready, List.cons_append, List.count_cons_self] at hfree ⊢
      omega
    · have hheads := h.heads
      simp only [staff, hready, List.cons_append, List.count_cons] at hheads ⊢
      simpa using hheads
  | head =>
    obtain ⟨hkept, hparked⟩ := h.step_up hready (.inl rfl) turnLength
    exact hkept.goToQueue rfl hparked
  | again =>
    obtain ⟨hkept, hparked⟩ := h.step_up hready (.inr rfl) s.left
    exact hkept.takeTask rfl hparked
  | resume id =>
    have hsame : staff { s with ready := rest, left := turnLength } = s.staff :=
      Staff.ext rfl rfl rfl rfl (by simp [staff, hready]) (by simp [staff, hready])
    exact (h.of_staff hsame).look id

theorem work (h : Kept P 0 s) (hs : s.Work s') : Kept P 0 s' := by
  cases hs with
  | serve hready => exact h.serve hready
  | turnBack hready =>
    exact h.of_staff (Staff.ext rfl rfl rfl rfl (by simp [staff, hready]) (by simp [staff, hready]))
  | tick time => exact h.of_staff rfl
  | fire => exact h.of_staff (staff_blind.fire s)

theorem works (h : Kept P 0 s) (hs : s.Works s') : Kept P 0 s' := by
  induction hs with
  | refl => exact h
  | tail _ hs ih => exact ih.work hs

theorem act {workers queue timeout : ℕ} {tasks : Task → Prop}
    (h : Kept (Roster.Reachable workers queue timeout) 0 s) (hs : s.Act tasks s') :
    Kept (Roster.Reachable workers queue timeout) 0 s' := by
  cases hs with
  | work hs => exact h.work hs
  | @submit t _ => exact h.submit t
  | openGate name => exact h.of_staff (staff_blind.openGate s name)
  | count c ns => exact h.of_staff rfl
  | probe p => exact h.of_staff rfl

end Kept

variable {capacity workers queue timeout : ℕ} {tasks : Task → Prop} {s : CacheSystem}

theorem Reached.works {s' : CacheSystem} (h : s.Reached capacity workers queue timeout tasks)
    (hs : s.Works s') : s'.Reached capacity workers queue timeout tasks :=
  h.trans (hs.lift id fun _ _ => .work)

theorem Reached.kept (h : s.Reached capacity workers queue timeout tasks) :
    Kept (Roster.Reachable workers queue timeout) 0 s := by
  induction h with
  | refl => exact .start _ _ _ _
  | tail _ hs ih => exact ih.act hs

end CacheSystem

end FilmCatalog
