import FilmCatalog.Proofs.Cache.Background

/-!
# Background work comes to rest

Serving whoever is ready cannot go on for ever. With each turn something
becomes less: the tasks that wait, what is left of the jobs of the runs, the
timers, or the turns themselves, in this order (`Nearer`). A task that is begun
leaves the line. A run that is looked at goes on with its job, or leaves, or has
lost its turn. A yield is worth less than the turn it comes from, and more than
the turn it becomes.

What is left of a job is an ordinal, since a call has as many continuations as
answers, and what is left of all runs is the multiset of these.

The clock goes on only to a time at which something is due, and takes a timer
out. So each wait of the foreground ends as well, and it is made of pieces of
background work.

Key definitions: `Job.depth`, `CacheSystem.Plan`, `CacheSystem.Nearer`, `CacheSystem.AtRest`.
Key theorems: `CacheSystem.wellFounded_nearer`, `CacheSystem.nearer_serve`,
`CacheSystem.comes_run`, `CacheSystem.comes_idle`, `CacheSystem.works_pause`,
`CacheSystem.comes_advance`.
-/

namespace FilmCatalog

/-! ## What is left of a job -/

/-- How far a job is from its end, whatever it is answered. -/
noncomputable def Job.depth : Job → Ordinal.{0}
  | .done => 0
  | .panic => 0
  | .lock _ next => Order.succ next.depth
  | .get _ next => ⨆ answer, Order.succ (next answer).depth
  | .set _ _ _ next => ⨆ answer, Order.succ (next answer).depth
  | .delete _ next => ⨆ answer, Order.succ (next answer).depth
  | .count _ _ next => Order.succ next.depth
  | .sleep _ next => Order.succ next.depth
  | .gate _ next => Order.succ next.depth

theorem Job.depth_lt_iSup {ι : Type} (next : ι → Job) (answer : ι) :
    (next answer).depth < ⨆ answer, Order.succ (next answer).depth :=
  (Order.lt_succ _).trans_le
    (Ordinal.le_iSup (fun answer => Order.succ (next answer).depth) answer)

/-- What is left of a job whose next call is delayed or not. -/
noncomputable def Job.left (job : Job) (paid : Bool) : Ordinal.{0} ×ₗ Bool :=
  toLex (job.depth, !paid)

theorem Job.left_lt_of_depth {job job' : Job} (h : job'.depth < job.depth) (paid paid' : Bool) :
    job'.left paid' < job.left paid :=
  Prod.Lex.left _ _ h

namespace CacheSystem

section Perform
variable {id : ℕ} {rest : Job} {on : Wait} {paid' : Bool} {s' : CacheSystem}

/-- A run that halts has no more to do than before. -/
theorem depth_le_of_waits (job : Job) (paid : Bool) (s : CacheSystem)
    (h : perform id job paid s = (.waits rest paid' on, s')) : rest.depth ≤ job.depth := by
  induction job generalizing paid s with
  | done => cases h
  | panic => cases h
  | lock i next ih =>
    rw [perform] at h
    split_ifs at h
    · cases h; exact le_rfl
    · exact (ih _ _ h).trans (Order.le_succ _)
    · cases h; exact Order.le_succ _
  | get key next ih =>
    rw [perform] at h
    split_ifs at h
    · exact (ih _ _ _ h).trans (Job.depth_lt_iSup next _).le
    · cases h; exact le_rfl
  | set key value ttl next ih =>
    rw [perform] at h
    split_ifs at h
    · split at h
      · exact (ih _ _ _ h).trans (Job.depth_lt_iSup next _).le
      · cases h
    · cases h; exact le_rfl
  | delete key next ih =>
    rw [perform] at h
    split_ifs at h
    · exact (ih _ _ _ h).trans (Job.depth_lt_iSup next _).le
    · cases h; exact le_rfl
  | count c ns next ih => exact (ih _ _ h).trans (Order.le_succ _)
  | sleep ms next ih =>
    rw [perform] at h
    split_ifs at h
    · cases h; exact Order.le_succ _
    · cases h; exact le_rfl
    · exact (ih _ _ h).trans (Order.le_succ _)
  | gate name next ih =>
    rw [perform] at h
    split_ifs at h
    · cases h; exact le_rfl
    · exact (ih _ _ h).trans (Order.le_succ _)
    · cases h; exact Order.le_succ _

/-- A run that has a step left has less to do when it halts: it has gone on, or
the delay of its call is behind it. -/
theorem left_lt_of_waits {job : Job} {paid : Bool} {s : CacheSystem} (hleft : s.left ≠ 0)
    (h : perform id job paid s = (.waits rest paid' on, s')) : rest.left paid' < job.left paid := by
  have hdelayed : ∀ {delay : ℕ}, ¬(paid || decide (delay = 0)) = true → paid = false := by
    intro delay hnow
    exact Bool.eq_false_iff.2 fun hpaid => hnow (by simp [hpaid])
  cases job with
  | done => cases h
  | panic => cases h
  | lock i next =>
    refine Job.left_lt_of_depth ?_ _ _
    rw [perform, if_neg hleft] at h
    split_ifs at h
    · exact Order.lt_succ_of_le (depth_le_of_waits _ _ _ h)
    · cases h; exact Order.lt_succ _
  | get key next =>
    rw [perform] at h
    split_ifs at h with hnow
    · exact Job.left_lt_of_depth
        ((depth_le_of_waits _ _ _ h).trans_lt (Job.depth_lt_iSup next _)) _ _
    · cases h
      rw [hdelayed hnow]
      exact Prod.Lex.right _ (by decide)
  | set key value ttl next =>
    rw [perform] at h
    split_ifs at h with hnow
    · split at h
      · exact Job.left_lt_of_depth
          ((depth_le_of_waits _ _ _ h).trans_lt (Job.depth_lt_iSup next _)) _ _
      · cases h
    · cases h
      rw [hdelayed hnow]
      exact Prod.Lex.right _ (by decide)
  | delete key next =>
    rw [perform] at h
    split_ifs at h with hnow
    · exact Job.left_lt_of_depth
        ((depth_le_of_waits _ _ _ h).trans_lt (Job.depth_lt_iSup next _)) _ _
    · cases h
      rw [hdelayed hnow]
      exact Prod.Lex.right _ (by decide)
  | count c ns next =>
    exact Job.left_lt_of_depth
      (Order.lt_succ_of_le (depth_le_of_waits next false (s.count c ns) h)) _ _
  | sleep ms next =>
    refine Job.left_lt_of_depth ?_ _ _
    rw [perform] at h
    split_ifs at h
    · cases h; exact Order.lt_succ _
    · exact Order.lt_succ_of_le (depth_le_of_waits _ _ _ h)
  | gate name next =>
    refine Job.left_lt_of_depth ?_ _ _
    rw [perform, if_neg hleft] at h
    split_ifs at h
    · exact Order.lt_succ_of_le (depth_le_of_waits _ _ _ h)
    · cases h; exact Order.lt_succ _

end Perform
end CacheSystem

/-! ## What is left to do -/

/-- What is left of a run. -/
noncomputable def Run.left (r : Run) : Ordinal.{0} ×ₗ Bool := r.rest.left r.paid

/-- What a turn may lead to before its owner does something else: a new worker
gets to the head of the line and then to the queue. -/
def Turn.weight : Turn → ℕ
  | .arrive => 3
  | .again => 2
  | .head => 1
  | .resume _ => 1

section Entries
variable {κ : Type} {α : Type*} [DecidableEq κ]

/-- Where the entries of a key are replaced, the others stay. -/
theorem map_replaced (l : List (κ × α)) (k : κ) (a : α) :
    ((l.map fun b => if b.1 = k then (b.1, a) else b).map Prod.snd).Perm
      ((l.filter fun b => b.1 != k).map Prod.snd ++
        List.replicate (l.countP fun b => b.1 == k) a) := by
  induction l with
  | nil => exact .refl _
  | cons b rest ih =>
    by_cases hb : b.1 = k
    · simp only [List.map_cons, List.filter_cons, hb, bne_self_eq_false, Bool.false_eq_true,
        if_false, List.countP_cons, beq_self_eq_true, if_true, List.replicate_succ]
      exact (ih.cons a).trans List.perm_middle.symm
    · simp only [List.map_cons, List.filter_cons, bne_iff_ne, ne_eq, hb, not_false_eq_true,
        if_true, List.countP_cons, beq_iff_eq, if_false, Nat.add_zero]
      exact ih.cons b.2

/-- Entries become less when those of a key are taken out or lesser ones come for them. -/
theorem isDershowitzMannaLT_of_replaced [Preorder α] {l : List (κ × α)} {k : κ} {b : κ × α}
    (hb : b ∈ l) (hk : b.1 = k) (new : Multiset α) (hnew : ∀ a ∈ new, a < b.2) :
    Multiset.IsDershowitzMannaLT (((l.filter fun b => b.1 != k).map Prod.snd : Multiset α) + new)
      (l.map Prod.snd : Multiset α) := by
  have hmem : b.2 ∈ ((l.filter fun b => b.1 == k).map Prod.snd : Multiset α) :=
    List.mem_map_of_mem (List.mem_filter.2 ⟨hb, by simpa using hk⟩)
  refine ⟨_, new, ((l.filter fun b => b.1 == k).map Prod.snd : Multiset α), ?_, rfl, ?_,
    fun a ha => ⟨b.2, hmem, hnew a ha⟩⟩
  · intro hempty
    rw [hempty] at hmem
    exact Multiset.notMem_zero _ hmem
  · rw [Multiset.coe_add, Multiset.coe_eq_coe, ← List.map_append]
    refine List.Perm.map _ (List.Perm.trans ?_ List.perm_append_comm)
    exact (List.filter_append_perm (fun b => b.1 == k) l).symm

end Entries

namespace CacheSystem

/-- What there is to do. -/
structure Plan where
  /-- The tasks that wait. -/
  tasks : List Task
  /-- The runs with what is left of each. -/
  runs : List (ℕ × (Ordinal.{0} ×ₗ Bool))

/-- What is left of all runs. -/
def Plan.load (p : Plan) : Multiset (Ordinal.{0} ×ₗ Bool) := (p.runs.map Prod.snd : List _)

/-- Whether as many tasks wait as in another plan and less is left of the runs. -/
structure Plan.Shrinks (p' p : Plan) : Prop where
  tasks : p'.tasks = p.tasks
  load : p'.load.IsDershowitzMannaLT p.load

/-- What there is to do in a system. -/
noncomputable def plan (s : CacheSystem) : Plan :=
  ⟨s.pool.waiting, s.pool.running.map fun r => (r.id, r.left)⟩

/-- What the turns may lead to. Those who yielded become ready once. -/
def turns (s : CacheSystem) : ℕ :=
  (s.ready.map fun t => 2 * t.weight).sum + (s.yielded.map fun t => 2 * t.weight + 1).sum

/-- Whether less is left to do in a system than in another. -/
inductive Nearer (s' s : CacheSystem) : Prop where
  | tasks (h : s'.plan.tasks.length < s.plan.tasks.length)
  | runs (h : s'.plan.Shrinks s.plan)
  | timers (hp : s'.plan = s.plan) (h : s'.timers.length < s.timers.length)
  | turns (hp : s'.plan = s.plan) (ht : s'.timers = s.timers) (h : s'.turns < s.turns)

theorem wellFounded_nearer : WellFounded Nearer := by
  have hlex := InvImage.wf (fun s : CacheSystem =>
    (s.plan.tasks.length, s.plan.load, s.timers.length, s.turns))
    (Nat.lt_wfRel.wf.prod_lex (Multiset.wellFounded_isDershowitzMannaLT.prod_lex
      (Nat.lt_wfRel.wf.prod_lex Nat.lt_wfRel.wf)))
  refine Subrelation.wf (fun {s' s} h => ?_) hlex
  cases h with
  | tasks h => exact .left _ _ h
  | runs h =>
    rw [InvImage, h.tasks]
    exact .right _ (.left _ _ h.load)
  | timers hp h =>
    rw [InvImage, hp]
    exact .right _ (.right _ (.left _ _ h))
  | turns hp ht h =>
    rw [InvImage, hp, ht]
    exact .right _ (.right _ (.right _ h))

/-! ## What a turn comes to -/

section Plan
variable (s : CacheSystem) (id : ℕ)

/-- A run may change in whatever is not part of its job. -/
theorem plan_modify {f : Run → Run} (hf : ∀ r, ((f r).id, (f r).left) = (r.id, r.left)) :
    plan { s with pool := s.pool.modify id f } = s.plan :=
  congrArg (Plan.mk s.pool.waiting) (s.pool.map_modify id hf)

/-- The plan does not see who waits for what. -/
theorem plan_blind : Blind plan where
  modify s id f hf := by
    refine plan_modify s id fun r => ?_
    have hsame := hf r
    simp only [Prod.mk.injEq] at hsame
    obtain ⟨hid, -, -, hrest, hpaid⟩ := hsame
    rw [Run.left, Run.left, hid, hrest, hpaid]
  turn _ _ := rfl
  lines _ _ _ _ _ := rfl

/-- What a system has to do and who is ready for it. -/
noncomputable def agenda (s : CacheSystem) := (s.plan, s.timers, s.ready, s.yielded)

theorem agenda_asleep : (s.asleep id).agenda = s.agenda :=
  congrArg (·, s.timers, s.ready, s.yielded) (plan_modify s id fun _ => rfl)

/-- What a run does until it halts leaves the agenda as it is. -/
theorem agenda_goOn (r : Run) : (s.goOn r).2.agenda = s.agenda :=
  (goOn_frame
    (fun s id i => congrArg (·, s.timers, s.ready, s.yielded) (plan_blind.hold s id i))
    (fun _ _ _ _ _ _ _ => rfl) s r).trans (agenda_asleep s r.id)

variable {s id}

/-- A worker that joins the line has no run. -/
theorem plan_rejoin : s.rejoin.plan = s.plan := by
  rw [rejoin]
  split_ifs <;> rfl

theorem plan_endRun :
    (s.endRun id).plan = ⟨s.plan.tasks, s.plan.runs.filter fun b => b.1 != id⟩ :=
  plan_rejoin.trans ((plan_blind.passOn_all _ _).trans
    (congrArg (Plan.mk s.pool.waiting) (s.pool.map_finish id fun _ => rfl)))

/-- Less is left when a run ends. -/
theorem shrinks_endRun (h : id ∈ s.plan.runs.map Prod.fst) : (s.endRun id).plan.Shrinks s.plan := by
  obtain ⟨b, hb, hid⟩ := List.mem_map.1 h
  have hless := isDershowitzMannaLT_of_replaced hb hid 0 fun _ ha =>
    absurd ha (Multiset.notMem_zero _)
  rw [add_zero] at hless
  exact plan_endRun ▸ ⟨rfl, hless⟩

theorem plan_suspend {r : Run} {rest : Job} {paid : Bool} {on : Wait}
    (hlate : ¬r.deadline ≤ s.now) :
    (s.suspend r rest paid on).plan =
      ⟨s.plan.tasks, s.plan.runs.map fun b => if b.1 = r.id then (b.1, rest.left paid) else b⟩ := by
  have hset : plan { s with pool := s.pool.modify r.id fun r =>
      { r with rest := rest, paid := paid, wait := on } } =
        ⟨s.plan.tasks, s.plan.runs.map fun b => if b.1 = r.id then (b.1, rest.left paid) else b⟩ :=
    congrArg (Plan.mk s.pool.waiting) (s.pool.map_modify_of_key r.id (fun _ => rfl) fun _ => rfl)
  rw [suspend, if_neg hlate]
  cases on with
  | nothing =>
    have hwoken := plan_modify { s with pool := s.pool.modify r.id fun r =>
      { r with rest := rest, paid := paid, wait := .nothing } } r.id
        (f := fun r => { r with woken := true }) fun _ => rfl
    exact hwoken.trans hset
  | _ => exact hset

/-- Less is left when a run halts with less to do than it had. -/
theorem shrinks_suspend {r : Run} {before : Ordinal.{0} ×ₗ Bool} (h : (r.id, before) ∈ s.plan.runs)
    {rest : Job} {paid : Bool} (hless : rest.left paid < before) (on : Wait) :
    (s.suspend r rest paid on).plan.Shrinks s.plan := by
  by_cases hlate : r.deadline ≤ s.now
  · rw [suspend, if_pos hlate]
    exact shrinks_endRun (s := s.count .timeout r.task.ns) (List.mem_map.2 ⟨_, h, rfl⟩)
  · rw [plan_suspend hlate]
    refine ⟨rfl, ?_⟩
    have hload := Multiset.coe_eq_coe.2 (map_replaced s.plan.runs r.id (rest.left paid))
    rw [← Multiset.coe_add] at hload
    rw [Plan.load, hload]
    exact isDershowitzMannaLT_of_replaced h rfl _ fun a ha =>
      (List.eq_of_mem_replicate ha).symm ▸ hless

theorem tasks_suspend (r : Run) (rest : Job) (paid : Bool) (on : Wait) :
    (s.suspend r rest paid on).plan.tasks = s.plan.tasks := by
  by_cases hlate : r.deadline ≤ s.now
  · rw [suspend, if_pos hlate]
    have hends : (s.cutOff r).plan =
        ⟨s.plan.tasks, s.plan.runs.filter fun b => b.1 != r.id⟩ := plan_endRun
    rw [hends]
  · rw [plan_suspend hlate]

/-- A run that may go on has a step left, if there were two. -/
theorem resumed_left {r : Run} (h : 1 < s.left) : (s.resumed r).left ≠ 0 := by
  rw [resumed]
  split
  · exact (Nat.zero_lt_of_lt h).ne'
  · exact Nat.sub_ne_zero_of_lt h

/-- A run that is looked at and has steps leaves or has less to do, or it has
lost its turn only. In any case as many tasks wait as before. -/
theorem look_shrinks (s : CacheSystem) (id : ℕ) :
    (s.look id).plan.tasks = s.plan.tasks ∧
      (1 < s.left → (s.look id).plan.Shrinks s.plan ∨ (s.look id).agenda = s.agenda) := by
  have hin : ∀ {r}, s.pool.find? r.id = some r → (r.id, r.left) ∈ s.plan.runs :=
    fun hr => List.mem_map_of_mem (Pool.mem_of_find? hr)
  have hlook := s.look_cases id
  generalize s.look id = s' at hlook ⊢
  cases hlook with
  | gone => exact ⟨rfl, fun _ => .inr rfl⟩
  | @ended r finished hr _ _ =>
    have hplan : (s.goOn r).2.plan = s.plan := congrArg Prod.fst (agenda_goOn s r)
    have hends : ((s.goOn r).2.endRun r.id).plan.Shrinks s.plan :=
      hplan ▸ shrinks_endRun (hplan ▸ List.mem_map_of_mem (hin hr))
    exact ⟨hends.tasks, fun _ => .inl hends⟩
  | @halted r rest paid on hr _ h =>
    have hplan : (s.goOn r).2.plan = s.plan := congrArg Prod.fst (agenda_goOn s r)
    refine ⟨(tasks_suspend r rest paid on).trans (congrArg Plan.tasks hplan), fun hleft => .inl ?_⟩
    have hless := left_lt_of_waits (resumed_left hleft) (Prod.ext h rfl)
    exact hplan ▸ shrinks_suspend (hplan ▸ hin hr) hless on
  | @late r hr _ =>
    have hplan : (s.asleep r.id).plan = s.plan := congrArg Prod.fst (agenda_asleep s r.id)
    have hends : ((s.asleep r.id).cutOff r).plan.Shrinks s.plan :=
      hplan ▸ shrinks_endRun (s := (s.asleep r.id).count .timeout r.task.ns)
        (hplan.symm ▸ List.mem_map_of_mem (hin hr))
    exact ⟨hends.tasks, fun _ => .inl hends⟩
  | @early r _ _ => exact ⟨rfl, fun _ => .inr (agenda_asleep s r.id)⟩

/-- The head of the line takes a task, or it has lost its turn, or it yields
when it has no step left. -/
theorem takeTask_nearer (s : CacheSystem) :
    s.takeTask.plan.tasks.length < s.plan.tasks.length ∨ s.takeTask.agenda = s.agenda ∨
      s.left = 0 ∧ s.takeTask.agenda = (s.plan, s.timers, s.ready, s.yielded ++ [.head]) := by
  rw [takeTask]
  split
  · rename_i hleft
    exact .inr (.inr ⟨hleft, rfl⟩)
  · split
    · exact .inr (.inl rfl)
    · rename_i r p hp
      obtain ⟨t, later, hwaiting, rfl, rfl⟩ := Pool.start?_eq_some_iff.1 hp
      refine .inl ?_
      rw [(look_shrinks _ _).1]
      have hhead : ∀ s : CacheSystem, s.wakeHead.plan.tasks = s.plan.tasks := by
        intro s
        rw [wakeHead]
        split <;> rfl
      rw [hhead]
      show later.length < s.pool.waiting.length
      rw [hwaiting]
      exact Nat.lt_succ_self _

end Plan

/-- With each turn less is left to do. -/
theorem nearer_serve {s : CacheSystem} {turn : Turn} {rest : List Turn}
    (h : s.ready = turn :: rest) :
    ({ s with ready := rest }.serve turn).Nearer s := by
  have hturns : s.turns = 2 * turn.weight + turns { s with ready := rest } := by
    rw [turns, turns, h, List.map_cons, List.sum_cons, Nat.add_assoc]
  -- who loses the turn only has that much less
  have hlost : ∀ s' : CacheSystem, s'.agenda = (s.plan, s.timers, rest, s.yielded) →
      s'.Nearer s := by
    intro s' hs'
    simp only [agenda, Prod.mk.injEq] at hs'
    obtain ⟨hp, ht, hr, hy⟩ := hs'
    refine .turns hp ht ?_
    rw [hturns, turns, hr, hy]
    cases turn <;> simp [Turn.weight, turns]
  have htakes : ∀ s₁ : CacheSystem, s₁.agenda = (s.plan, s.timers, rest, s.yielded) →
      (s₁.left = 0 → turn = .again) → s₁.takeTask.Nearer s := by
    intro s₁ hs₁ hleft
    have hplan : s₁.plan = s.plan := congrArg Prod.fst hs₁
    rcases s₁.takeTask_nearer with ht | ht | ⟨hzero, ht⟩
    · exact .tasks (hplan ▸ ht)
    · exact hlost _ (ht.trans hs₁)
    · obtain rfl := hleft hzero
      simp only [agenda, Prod.mk.injEq] at hs₁ ht
      obtain ⟨-, ht₁, hr₁, hy₁⟩ := hs₁
      obtain ⟨hp, htimers, hr, hy⟩ := ht
      refine .turns (hp.trans hplan) (htimers.trans ht₁) ?_
      rw [hturns, turns, hr, hy, hr₁, hy₁]
      simp [Turn.weight, turns]
      omega
  cases turn with
  | arrive =>
    show (rejoin { s with ready := rest, left := turnLength }).Nearer s
    have hsteps : turnLength ≠ 0 := by decide
    rw [rejoin, if_neg hsteps]
    split
    · refine .turns rfl rfl ?_
      rw [hturns]
      simp [turns, Turn.weight, spend]
      omega
    · exact hlost _ rfl
  | head =>
    show (goToQueue { s with ready := rest, left := turnLength, headReady := false }).Nearer s
    have hsteps : turnLength ≠ 0 := by decide
    have hmore : turnLength - 1 ≠ 0 := by decide
    rw [goToQueue]
    split
    · exact htakes { s with ready := rest, left := turnLength, headReady := false } rfl
        fun hzero => absurd hzero hsteps
    · exact htakes { s with
        ready := rest
        left := turnLength - 1
        headReady := false
        headAtQueue := true } rfl fun hzero => absurd hzero hmore
  | again => exact htakes { s with ready := rest, headReady := false } rfl fun _ => rfl
  | resume id =>
    have hsteps : 1 < turnLength := by decide
    rcases (look_shrinks { s with ready := rest, left := turnLength } id).2 hsteps with hs | hs
    · exact .runs hs
    · exact hlost _ hs

/-- Those who yielded have one turn each when they become ready. -/
theorem nearer_turnBack {s : CacheSystem} (h : s.ready = []) (hy : s.yielded ≠ []) :
    CacheSystem.Nearer { s with ready := s.yielded, yielded := [] } s := by
  refine .turns rfl rfl ?_
  have hsum : ∀ l : List Turn, (l.map fun t => 2 * t.weight + 1).sum =
      (l.map fun t => 2 * t.weight).sum + l.length := by
    intro l
    induction l with
    | nil => rfl
    | cons t rest ih =>
      simp only [List.map_cons, List.sum_cons, ih, List.length_cons]
      omega
  have hlength := List.length_pos_iff.2 hy
  simp only [turns, h, hsum, List.map_nil, List.sum_nil]
  omega

/-! ## What is due -/

theorem timers_fire (s : CacheSystem) : s.fire.timers = s.timers.filter fun t => s.now < t.1 := by
  have hwakes : ∀ (due : List (ℕ × ℕ)) (s : CacheSystem),
      (due.foldl (fun s t => s.wake t.2) s).timers = s.timers := by
    intro due
    induction due with
    | nil => exact fun s => rfl
    | cons t rest ih =>
      intro s
      rw [List.foldl_cons, ih, wake]
      split
      · rfl
      · split <;> rfl
  rw [fire, List.partition_eq_filter_filter]
  refine (hwakes _ _).trans (List.filter_congr fun t _ => ?_)
  simp only [Function.comp_apply, ← not_le, decide_not]

/-- A timer that is due is taken out. -/
theorem nearer_reach {s : CacheSystem} {time : ℕ} (h : ∃ t ∈ s.timers, t.1 ≤ max s.now time) :
    (s.reach time).Nearer s := by
  obtain ⟨t, ht, hdue⟩ := h
  have htimers := timers_fire { s with now := max s.now time }
  refine .timers (plan_blind.fire { s with now := max s.now time }) ?_
  rw [reach, htimers, List.length_filter_lt_length_iff_exists]
  exact ⟨t, ht, by rwa [decide_eq_true_eq, not_lt]⟩

theorem nearer_fire {s : CacheSystem} (h : ∃ t ∈ s.timers, t.1 ≤ s.now) : s.fire.Nearer s := by
  have hreach : s.reach s.now = s.fire := by rw [reach, max_self]
  exact hreach ▸ nearer_reach (by rwa [max_self])

/-- The next time is that of a timer. -/
theorem nearer_reach_next {s : CacheSystem} {time : ℕ} (h : s.nextTime? = some time) :
    (s.reach time).Nearer s := by
  obtain ⟨t, ht, rfl⟩ := List.mem_map.1 (List.min?_mem h)
  exact nearer_reach ⟨t, ht, le_max_right _ _⟩

/-! ## Waits -/

/-- What serving everybody comes to. -/
structure Comes (s s' : CacheSystem) : Prop where
  works : s.Works s'
  nearer : Relation.ReflTransGen Nearer s' s
  ready : s'.ready = []
  yielded : s'.yielded = []

/-- A step that is repeated comes to its end when all it goes on with is nearer to rest. -/
theorem repeated_ends {step : CacheSystem → ForInStep CacheSystem}
    {motive : CacheSystem → CacheSystem → Prop}
    (hdone : ∀ {s s'}, step s = .done s' → motive s s')
    (hyield : ∀ {s s'}, step s = .yield s' →
      Relation.TransGen Nearer s' s ∧ ∀ {last}, motive s' last → motive s last)
    (s : CacheSystem) : motive s (repeated step s) := by
  induction s using wellFounded_nearer.transGen.induction with
  | _ s ih =>
    rw [repeated_eq]
    cases hstep : step s with
    | done s' => exact hdone hstep
    | yield s' =>
      obtain ⟨hnear, hgoes⟩ := hyield hstep
      exact hgoes (ih s' hnear)

theorem runStep_done {s s' : CacheSystem} (h : s.runStep = .done s') :
    s' = s ∧ s.ready = [] ∧ s.yielded = [] := by
  rw [runStep] at h
  split at h
  · rename_i hready
    split at h
    · rename_i hyielded
      cases h
      exact ⟨rfl, hready, by simpa using hyielded⟩
    · cases h
  · cases h

theorem runStep_yield {s s' : CacheSystem} (h : s.runStep = .yield s') :
    s.Work s' ∧ s'.Nearer s := by
  rw [runStep] at h
  split at h
  · rename_i hready
    split at h
    · cases h
    · rename_i hyielded
      cases h
      exact ⟨.turnBack hready, nearer_turnBack hready (by simpa using hyielded)⟩
  · rename_i turn rest hready
    cases h
    exact ⟨.serve hready, nearer_serve hready⟩

theorem comes_run (s : CacheSystem) : s.Comes s.run := by
  refine repeated_ends (fun h => ?_) (fun h => ?_) s
  · obtain ⟨rfl, hready, hyielded⟩ := runStep_done h
    exact ⟨.refl, .refl, hready, hyielded⟩
  · obtain ⟨hwork, hnear⟩ := runStep_yield h
    exact ⟨.single hnear, fun hrest =>
      ⟨.head hwork hrest.works, hrest.nearer.tail hnear, hrest.ready, hrest.yielded⟩⟩

theorem works_reach (s : CacheSystem) (time : ℕ) : s.Works (s.reach time) :=
  .tail (.single (.tick time)) .fire

/-- What has been run before the clock goes on is nearer to rest. -/
theorem Comes.nearer_of {s s' s'' : CacheSystem} (h : s.Comes s') (hs : s''.Nearer s') :
    Relation.TransGen Nearer s'' s :=
  .head' hs h.nearer

/-- Whether nobody is ready and nothing will be due. -/
structure Stopped (s : CacheSystem) : Prop where
  ready : s.ready = []
  yielded : s.yielded = []
  timers : s.timers = []

theorem idleStep_done {s s' : CacheSystem} (h : s.idleStep = .done s') :
    s.Works s' ∧ (s'.pool.pending = 0 ∨ s'.Stopped) := by
  have hrun := comes_run s
  rw [idleStep] at h
  split at h
  · rename_i hzero
    cases h
    exact ⟨.refl, .inl hzero⟩
  · simp only at h
    split at h
    · rename_i hzero
      cases h
      exact ⟨hrun.works, .inl hzero⟩
    · split at h
      · cases h
      · rename_i htime
        cases h
        have htimers : s.run.timers = [] := by
          simpa [nextTime?] using htime
        exact ⟨hrun.works, .inr ⟨hrun.ready, hrun.yielded, htimers⟩⟩

theorem idleStep_yield {s s' : CacheSystem} (h : s.idleStep = .yield s') :
    s.Works s' ∧ Relation.TransGen Nearer s' s := by
  have hrun := comes_run s
  rw [idleStep] at h
  split at h
  · cases h
  · simp only at h
    split at h
    · cases h
    · split at h
      · rename_i time htime
        cases h
        exact ⟨hrun.works.trans (works_reach _ _), hrun.nearer_of (nearer_reach_next htime)⟩
      · cases h

/-- A wait for the end of all tasks is background work. It ends when nothing is
counted, or when nothing can ever happen. -/
theorem comes_idle (s : CacheSystem) :
    s.Works s.idle ∧ (s.idle.pool.pending = 0 ∨ s.idle.Stopped) := by
  refine repeated_ends (motive := fun s s' => s.Works s' ∧ (s'.pool.pending = 0 ∨ s'.Stopped))
    (fun h => ?_) (fun h => ?_) s
  · exact idleStep_done h
  · obtain ⟨hworks, hnear⟩ := idleStep_yield h
    exact ⟨hnear, fun ⟨hmore, hend⟩ => ⟨hworks.trans hmore, hend⟩⟩

theorem works_idle (s : CacheSystem) : s.Works s.idle := (comes_idle s).1

theorem waitStep_done {time : ℕ} {s s' : CacheSystem} (h : s.waitStep time = .done s') :
    s.Works s' := by
  have hrun := comes_run s
  rw [waitStep] at h
  split at h
  · split at h
    · cases h
    · cases h
      exact hrun.works.trans (works_reach _ _)
  · cases h
    exact hrun.works.trans (works_reach _ _)

theorem waitStep_yield {time : ℕ} {s s' : CacheSystem} (h : s.waitStep time = .yield s') :
    s.Works s' ∧ Relation.TransGen Nearer s' s := by
  have hrun := comes_run s
  rw [waitStep] at h
  split at h
  · rename_i next hnext
    split at h
    · cases h
      exact ⟨hrun.works.trans (works_reach _ _), hrun.nearer_of (nearer_reach_next hnext)⟩
    · cases h
  · cases h

theorem works_pause (s : CacheSystem) (ms : ℕ) : s.Works (s.pause ms) := by
  rw [pause]
  split
  · exact .refl
  · refine repeated_ends (fun h => ?_) (fun h => ?_) s
    · exact waitStep_done h
    · obtain ⟨hworks, hnear⟩ := waitStep_yield h
      exact ⟨hnear, hworks.trans⟩

/-- Whether nobody is ready and nothing is due. -/
structure AtRest (s : CacheSystem) : Prop where
  ready : s.ready = []
  yielded : s.yielded = []
  timers : ∀ t ∈ s.timers, s.now < t.1

theorem catchUpStep_done {s s' : CacheSystem} (h : s.catchUpStep = .done s') :
    s.Works s' ∧ s'.AtRest := by
  have hrun := comes_run s
  rw [catchUpStep] at h
  split at h
  · cases h
  · rename_i hdue
    cases h
    exact ⟨hrun.works, hrun.ready, hrun.yielded, by simpa using hdue⟩

theorem catchUpStep_yield {s s' : CacheSystem} (h : s.catchUpStep = .yield s') :
    s.Works s' ∧ Relation.TransGen Nearer s' s := by
  have hrun := comes_run s
  rw [catchUpStep] at h
  split at h
  · rename_i hdue
    cases h
    exact ⟨hrun.works.tail .fire, hrun.nearer_of (nearer_fire (by simpa using hdue))⟩
  · cases h

/-- A system whose clock was moved comes to rest. -/
theorem comes_advance (s : CacheSystem) (ms : ℕ) :
    s.Works (s.advance ms) ∧ (s.advance ms).AtRest := by
  have htick := Work.tick (s := s) (s.now + ms)
  rw [max_eq_right (Nat.le_add_right _ _)] at htick
  have hends := repeated_ends (motive := fun s s' => s.Works s' ∧ s'.AtRest)
    (fun h => catchUpStep_done h) (fun h => ?_) { s with now := s.now + ms }
  · exact ⟨.head htick hends.1, hends.2⟩
  · obtain ⟨hworks, hnear⟩ := catchUpStep_yield h
    exact ⟨hnear, fun ⟨hmore, hrest⟩ => ⟨hworks.trans hmore, hrest⟩⟩

/-! ## Computing -/

/-- What serving everybody comes to, if so many turns are enough. -/
def runWithin : ℕ → CacheSystem → Option CacheSystem
  | 0, _ => none
  | n + 1, s =>
    match s.ready with
    | [] =>
      if s.yielded.isEmpty then some s else runWithin n { s with ready := s.yielded, yielded := [] }
    | turn :: rest => runWithin n ({ s with ready := rest }.serve turn)

theorem run_eq_of_runWithin {n : ℕ} {s s' : CacheSystem} (h : runWithin n s = some s') :
    s.run = s' := by
  induction n generalizing s with
  | zero => cases h
  | succ n ih =>
    rw [run, repeated_eq, runStep]
    rw [runWithin] at h
    cases hready : s.ready with
    | nil =>
      simp only [hready] at h ⊢
      split_ifs at h ⊢
      · exact Option.some.inj h
      · exact ih h
    | cons turn rest =>
      simp only [hready] at h ⊢
      exact ih h

theorem run_eq_getD {n : ℕ} {s : CacheSystem} (h : (runWithin n s).isSome = true) :
    s.run = (runWithin n s).getD s := by
  obtain ⟨s', hs'⟩ := Option.isSome_iff_exists.1 h
  rw [run_eq_of_runWithin hs', hs', Option.getD_some]

/-- What a wait for the end of all tasks comes to, if so many times and turns are enough. -/
def idleWithin : ℕ → CacheSystem → Option CacheSystem
  | 0, _ => none
  | n + 1, s =>
    if s.pool.pending = 0 then some s
    else do
      let s ← runWithin (n + 1) s
      if s.pool.pending = 0 then some s
      else
        match s.nextTime? with
        | some t => idleWithin n (s.reach t)
        | none => some s

theorem idle_eq_of_idleWithin {n : ℕ} {s s' : CacheSystem} (h : idleWithin n s = some s') :
    s.idle = s' := by
  induction n generalizing s with
  | zero => cases h
  | succ n ih =>
    rw [idle, repeated_eq, idleStep]
    rw [idleWithin] at h
    split at h
    · rename_i hzero
      rw [if_pos hzero]
      exact Option.some.inj h
    · rename_i hpending
      obtain ⟨s₁, hrun, hrest⟩ := Option.bind_eq_some_iff.1 h
      obtain rfl := run_eq_of_runWithin hrun
      rw [if_neg hpending]
      cases hnext : s.run.nextTime? with
      | none =>
        simp only [hnext] at hrest ⊢
        split_ifs at hrest ⊢ <;> exact Option.some.inj hrest
      | some t =>
        simp only [hnext] at hrest ⊢
        split_ifs at hrest ⊢
        · exact Option.some.inj hrest
        · exact ih hrest

theorem idle_eq_getD {n : ℕ} {s : CacheSystem} (h : (idleWithin n s).isSome = true) :
    s.idle = (idleWithin n s).getD s := by
  obtain ⟨s', hs'⟩ := Option.isSome_iff_exists.1 h
  rw [idle_eq_of_idleWithin hs', hs', Option.getD_some]

end CacheSystem
end FilmCatalog
