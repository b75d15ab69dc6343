import FilmCatalog.Proofs.Cache.Overdue

/-!
# The books of executed systems

The head of the line has a turn as long as tasks wait. So when nobody has a turn
and no timer is set, nothing runs and nothing waits, and a wait for the end of
all tasks never stops before: it returns when everything that was accepted has
ended, in steps that workers can make.

Key definitions: `CacheSystem.Attended`.
Key theorems: `CacheSystem.Attended.act`, `CacheSystem.Reached.pending_idle`, `pool_keeps_books`.
-/

namespace FilmCatalog
namespace CacheSystem

/-! ## The head of the line -/

/-- What decides whether the head of the line is needed and has a turn. -/
def attention (s : CacheSystem) : ℕ × List Task × Bool := (s.parked, s.pool.waiting, s.headReady)

/-- Whether the head of the line is ready when tasks wait. -/
def Attended (s : CacheSystem) : Prop :=
  0 < s.parked → s.pool.waiting ≠ [] → s.headReady = true

section Attended
variable {s s' : CacheSystem}

theorem attention_blind : Blind attention where
  modify _ _ _ _ := rfl
  turn _ _ := rfl
  lines _ _ _ _ _ := rfl

theorem Attended.of_attention (h : s.Attended) (hs : s'.attention = s.attention) :
    s'.Attended := by
  simp only [attention, Prod.mk.injEq] at hs
  obtain ⟨hparked, hwaiting, hready⟩ := hs
  rw [Attended, hparked, hwaiting, hready]
  exact h

theorem attended_wakeHead (s : CacheSystem) : s.wakeHead.Attended := by
  rw [wakeHead]
  split
  · rename_i hline
    intro hparked _
    simpa [hparked.ne'] using hline
  · exact fun _ _ => rfl

theorem Attended.rejoin (h : s.Attended) : s.rejoin.Attended := by
  rw [CacheSystem.rejoin]
  split_ifs with hleft hparked
  · exact h
  · exact fun _ _ => rfl
  · exact fun _ hwaiting => h (Nat.pos_of_ne_zero hparked) hwaiting

theorem Attended.endRun (h : s.Attended) (id : ℕ) : (s.endRun id).Attended :=
  rejoin (h.of_attention (attention_blind.passOn_all _ _))

theorem Attended.suspend (h : s.Attended) (r : Run) (rest : Job) (paid : Bool) (on : Wait) :
    (s.suspend r rest paid on).Attended := by
  rw [CacheSystem.suspend]
  split
  · exact endRun (s := s.count .timeout r.task.ns) h r.id
  · cases on <;> exact h

theorem Attended.look (h : s.Attended) (id : ℕ) : (s.look id).Attended := by
  have hgoes (r : Run) : (s.goOn r).2.Attended :=
    h.of_attention (goOn_frame (fun _ _ _ => rfl) (fun _ _ _ _ _ _ _ => rfl) s r)
  have hlook := s.look_cases id
  generalize s.look id = s₁ at hlook ⊢
  cases hlook with
  | gone => exact h
  | @ended r finished _ _ _ => exact (hgoes r).endRun r.id
  | @halted r rest paid on _ _ _ => exact (hgoes r).suspend r rest paid on
  | @late r _ _ => exact endRun (s := (s.asleep r.id).count .timeout r.task.ns) h r.id
  | early => exact h

/-- Who takes a task lets the next step forward. -/
theorem attended_takeTask (s : CacheSystem) : s.takeTask.Attended := by
  rw [takeTask]
  split
  · exact fun _ _ => rfl
  · split
    · rename_i hnone
      intro _ hwaiting
      rw [Pool.start?] at hnone
      split at hnone
      · rename_i hnil
        exact absurd hnil hwaiting
      · cases hnone
    · exact (attended_wakeHead _).look _

theorem attended_goToQueue (s : CacheSystem) : s.goToQueue.Attended := by
  rw [goToQueue]
  split <;> exact attended_takeTask _

theorem Attended.work (h : s.Attended) (hs : s.Work s') : s'.Attended := by
  cases hs with
  | @serve turn rest hready =>
    cases turn with
    | arrive => exact rejoin (s := { s with ready := rest, left := turnLength }) h
    | head => exact attended_goToQueue _
    | again => exact attended_takeTask _
    | resume id => exact look (s := { s with ready := rest, left := turnLength }) h id
  | turnBack _ => exact h
  | tick _ => exact h
  | fire => exact h.of_attention (attention_blind.fire s)

theorem Attended.act {tasks : Task → Prop} (h : s.Attended) (hs : s.Act tasks s') :
    s'.Attended := by
  cases hs with
  | work hs => exact h.work hs
  | @submit t _ =>
    rw [submit]
    split
    · exact h
    · exact attended_wakeHead _
  | openGate name => exact h.of_attention (attention_blind.openGate s name)
  | count c ns => exact h
  | probe p => exact h

end Attended

/-! ## The end of a wait -/

variable {capacity workers queue timeout : ℕ} {tasks : Task → Prop} {s : CacheSystem}

theorem Reached.attended (h : s.Reached capacity workers queue timeout tasks) : s.Attended := by
  induction h with
  | refl => exact fun _ hwaiting => absurd rfl hwaiting
  | tail _ hs ih => exact ih.act hs

/-- Every run has a timer or a turn. -/
theorem Reached.running_of_stopped (h : s.Reached capacity workers queue timeout tasks)
    (hs : s.Stopped) : s.pool.running = [] := by
  refine List.eq_nil_iff_forall_not_mem.2 fun r hr => ?_
  have hrest : s.AtRest := ⟨hs.ready, hs.yielded, by simp [hs.timers]⟩
  have htimer := h.alert.ahead r.alarm (List.mem_map_of_mem hr) (h.not_overdue hrest hr)
  rw [watch, hs.timers] at htimer
  exact List.not_mem_nil htimer

/-- Workers without runs stand in line, and the first of them takes what waits. -/
theorem Reached.waiting_of_stopped (h : s.Reached capacity workers queue timeout tasks)
    (hs : s.Stopped) : s.pool.waiting = [] := by
  have hkept := h.kept
  obtain ⟨t, ht, hpool, -, -, hleaving, hfree⟩ := hkept.books
  have hall := ht.sound.free_add
  rw [hfree, hleaving, hpool, h.running_of_stopped hs] at hall
  have hturns : s.staff.arrivals = 0 ∧ s.staff.heads = 0 := by
    simp [staff, hs.ready, hs.yielded]
  have hparked : 0 < s.parked := by
    simp only [hturns.1, List.length_nil] at hall
    omega
  by_contra hwaiting
  have hheads := hkept.heads
  rw [hturns.2, h.attended hparked hwaiting] at hheads
  exact absurd hheads Nat.zero_ne_one

/-- A wait for the end of all tasks returns when none is counted. -/
theorem Reached.pending_idle (h : s.Reached capacity workers queue timeout tasks) :
    s.idle.pool.pending = 0 := by
  obtain ⟨hworks, hzero | hstopped⟩ := comes_idle s
  · exact hzero
  · have hidle := h.works hworks
    obtain ⟨t, ht, hpool, -⟩ := hidle.kept.books
    rw [← hpool, ht.sound.pending, hpool, hidle.running_of_stopped hstopped,
      hidle.waiting_of_stopped hstopped]
    rfl

end CacheSystem

/-! ## The books of every pool -/

/-- A pool of any size keeps its books, in whatever order tasks are submitted
and runs go on, finish, panic or are cut off: at most `queue` tasks wait and at
most `workers` run; a task is refused when all places are taken, and only then;
the others are begun once each, in the order in which they came; each run ends
once and gives its worker back; the counter never falls behind what it counts,
and reads zero only when all that was accepted has ended. The pools of executed
systems are such pools: between two pieces of work no call and no worker is
under way, and the counter is what waits and runs. Whatever the system has come
to, a wait for the end of all tasks returns. Workers have then come by their own
steps to where the counter reads zero and all that was accepted has ended. -/
theorem pool_keeps_books (capacity workers queue timeout : ℕ) (tasks : Task → Prop) :
    (∀ s : Roster, s.Reachable workers queue timeout →
      s.pool.waiting.length ≤ max queue 1 ∧ s.pool.running.length ≤ max workers 1 ∧
      (∀ t, s.pool.submit? t = none ↔ s.pool.waiting.length = max queue 1) ∧
      -- a call is accepted or refused once it is made, and only what was accepted is begun
      (s.accepted.map Prod.fst ++ s.refused ++ s.offering.map Prod.fst).Perm
        (List.range s.calls) ∧
      (∀ n ∈ s.refused, n ∉ s.accepted.map Prod.fst) ∧
      s.begun.map Prod.snd ++ s.pool.waiting = s.accepted.map Prod.snd ∧
      s.begun.map Prod.snd = (s.accepted.take s.pool.started).map Prod.snd ∧
      s.begun.map Prod.fst = List.range s.pool.started ∧
      -- a run is there, being left, or has ended in some way
      (s.ended.map Prod.fst ++ s.leaving ++ s.pool.running.map (·.id)).Perm
        (List.range s.pool.started) ∧
      s.crew.count .free + s.leaving.length + s.pool.running.length = max workers 1 ∧
      -- the counts, and that there is enough for all who will lower the counter
      s.pool.pending = s.pool.waiting.length + s.pool.running.length ∧
      s.counter = s.pool.pending + s.offering.length + s.shed.length + s.leaving.length ∧
      s.counter + s.ended.length + s.refused.length = s.calls + s.shed.length ∧
      -- the end of a wait
      (s.counter = 0 → s.pool.waiting = [] ∧ s.pool.running = [] ∧
        s.begun.map Prod.snd = s.accepted.map Prod.snd ∧
        (s.ended.map Prod.fst).Perm (List.range s.accepted.length)) ∧
      ∃ s', Relation.ReflTransGen Roster.Step s s' ∧ s'.counter = 0 ∧ s'.calls = s.calls) ∧
    ∀ s : CacheSystem, s.Reached capacity workers queue timeout tasks →
      ∃ t : Roster, t.Reachable workers queue timeout ∧ t.pool = s.pool ∧
        t.counter = s.pool.waiting.length + s.pool.running.length ∧ t.counter = s.pool.pending ∧
        t.crew.count .free = s.parked + s.staff.arrivals ∧
        -- a wait for the end of all tasks
        s.Works s.idle ∧ s.idle.pool.pending = 0 ∧
        ∃ t' : Roster, Relation.ReflTransGen Roster.Step t t' ∧ t'.pool = s.idle.pool ∧
          t'.called = t.called ∧ t'.counter = 0 ∧ t'.pool.waiting = [] ∧ t'.pool.running = [] ∧
          t'.begun.map Prod.snd = t.accepted.map Prod.snd ∧
          (t'.ended.map Prod.fst).Perm (List.range t.accepted.length) := by
  refine ⟨fun s hs => ?_, fun s hs => ?_⟩
  · have h := hs.sound
    refine ⟨h.places ▸ h.waiting_le, h.running_le, h.submit?_eq_none_iff, h.calls,
      fun _ => h.refused_not_accepted, h.accepted, h.begun_eq_take, h.begun,
      (h.held.symm.append_left _).trans h.runs, h.free_add, h.pending, h.counter, h.counter_add,
      fun hzero => ?_, h.drains⟩
    obtain ⟨hwaiting, hrunning, -, -, -, hbegun, hended⟩ := h.idle hzero
    exact ⟨hwaiting, hrunning, hbegun, hended⟩
  · obtain ⟨t, ht, hpool, hoffer, hshed, hleaving, hfree⟩ := hs.kept.books
    have hcounter : t.counter = t.pool.pending := by
      rw [ht.sound.counter, hoffer, hshed, hleaving]
      rfl
    refine ⟨t, ht, hpool, hpool ▸ hcounter.trans ht.sound.pending, hpool ▸ hcounter, hfree,
      CacheSystem.works_idle s, hs.pending_idle, ?_⟩
    -- background work takes this roster along
    have := Roster.closed_ahead ht.sound
    have hfrom : CacheSystem.Kept t.Ahead 0 s :=
      ⟨⟨t, ⟨.refl, rfl⟩, hpool, hoffer, hshed, hleaving, hfree⟩, hs.kept.heads, hs.kept.line⟩
    obtain ⟨t', ⟨hsteps, hcalled⟩, hpool', hoffer', hshed', hleaving', -⟩ :=
      (hfrom.works (CacheSystem.works_idle s)).books
    have hsound := ht.sound.steps hsteps
    have hzero : t'.counter = 0 := by
      rw [hsound.counter, hoffer', hshed', hleaving', hpool', hs.pending_idle]
      rfl
    have haccepted : t'.accepted = t.accepted := congrArg (·.2.1) hcalled
    obtain ⟨hwaiting, hrunning, -, -, -, hbegun, hended⟩ := hsound.idle hzero
    exact ⟨t', hsteps, hpool', hcalled, hzero, hwaiting, hrunning, haccepted ▸ hbegun,
      haccepted ▸ hended⟩

/-- One worker and one place: of three tasks the last is refused, the first
panics, and the second waits on. A wait for one task ends when it has ended. -/
theorem keeps_books_with_one_place :
    ∃ s : Roster, s.Reachable 0 0 5 ∧ s.refused = [2] ∧ s.ended = [(0, .panicked)] ∧
      s.pool.waiting.length = max 0 1 ∧ s.crew.count .free = 1 ∧ s.counter = s.pool.pending ∧
        ∃ t : Roster, t.Reachable 0 0 5 ∧
          t.pool = (CacheSystem.submit (.start 1 0 0 5) ⟨.posts, "", .panic⟩).2.pool ∧
            t.counter = 1 ∧
            (CacheSystem.submit (.start 1 0 0 5) ⟨.posts, "", .panic⟩).2.idle.pool.pending = 0 ∧
            ∃ t' : Roster, Relation.ReflTransGen Roster.Step t t' ∧ t'.counter = 0 ∧
              t'.ended.length = 1 := by
  let t : Task := ⟨.posts, "", .panic⟩
  let s : Roster := {
    pool := { Pool.empty 0 0 5 with waiting := [t], pending := 1, started := 1 }
    counter := 1
    crew := [.free]
    calls := 3
    offering := []
    shed := []
    accepted := [(0, t), (1, t)]
    refused := [2]
    begun := [(0, t)]
    ended := [(0, .panicked)] }
  have hone {α : Type} (x : α) : [x] = [] ++ x :: [] := rfl
  have hstart : (Roster.start 0 0 5).Reachable 0 0 5 := .refl
  have hbegun := ((hstart.tail (.raise t)).tail (.accept (hone _) rfl)).tail
    (.begin (hone _) (show Pool.start? _ 0 = _ from rfl))
  have hrefused := (((hbegun.tail (.raise t)).tail (.accept (hone _) rfl)).tail (.raise t)).tail
    (.refuse (hone _) rfl)
  have hended := ((hrefused.tail (.withdraw (hone _))).tail (.leave .panicked (hone _))).tail
    (.settle (hone _))
  have hs : s.Reachable 0 0 5 := hended
  obtain ⟨-, -, hfull, -, -, -, -, -, -, hfree, -, hcounter, -⟩ :=
    (pool_keeps_books 1 0 0 5 fun _ => True).1 s hs
  obtain ⟨r, hr, hpool, -, hcount, -, -, hidle, r', hsteps, -, -, hzero, -, -, -, hended⟩ :=
    (pool_keeps_books 1 0 0 5 fun _ => True).2 _ (.single (.submit (t := t) trivial))
  have hone : r.accepted.length = 1 := by
    rw [hr.sound.length_accepted, hpool]
    rfl
  have hlength := hended.length_eq
  rw [List.length_map, List.length_range, hone] at hlength
  exact ⟨s, hs, rfl, rfl, (hfull t).1 rfl, hfree, hcounter, r, hr, hpool, hcount, hidle, r', hsteps,
    hzero, hlength⟩

end FilmCatalog
