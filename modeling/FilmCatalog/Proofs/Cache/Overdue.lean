import FilmCatalog.Proofs.Cache.Rest

/-!
# Runs whose time is over

A run whose time is over has a turn or one is due to it, and when it is looked at
then it goes on to its end or is cut off. So in a system in which nobody is ready and
nothing is due every run has some of its time left
(`CacheSystem.Reached.not_overdue`).

Key definitions: `CacheSystem.Watch`, `CacheSystem.Watch.Alert`.
Key theorems: `CacheSystem.alert_fire`, `CacheSystem.alert_look`, `CacheSystem.alert_act`,
`CacheSystem.Reached.not_overdue`.
-/

namespace FilmCatalog

/-- When a run is cut off, and whether it is going to be looked at. -/
structure Alarm where
  id : ℕ
  deadline : ℕ
  woken : Bool

def Run.alarm (r : Run) : Alarm := ⟨r.id, r.deadline, r.woken⟩

namespace CacheSystem

/-! ## The watch over the runs -/

/-- What decides which runs are looked at. -/
@[ext]
structure Watch where
  now : ℕ
  started : ℕ
  timers : List (ℕ × ℕ)
  /-- Everybody who has a turn. -/
  turns : List Turn
  alarms : List Alarm

/-- The watch of a system. -/
def watch (s : CacheSystem) : Watch where
  now := s.now
  started := s.pool.started
  timers := s.timers
  turns := s.ready ++ s.yielded
  alarms := s.pool.running.map Run.alarm

namespace Watch

/-- Says of a run whether it is going to be looked at. -/
def tell (v : Watch) (id : ℕ) (woken : Bool) : Watch :=
  { v with alarms := v.alarms.map fun a => if a.id = id then { a with woken := woken } else a }

/-- The watch without a run. -/
def leave (v : Watch) (id : ℕ) : Watch :=
  { v with
    timers := v.timers.filter fun t => t.2 != id
    alarms := v.alarms.filter fun a => a.id != id }

/-- Whether every run is looked at when its time is over, up to those that somebody is about to
look at or to wake. -/
structure Alert (v : Watch) (amid : List ℕ) : Prop where
  ids : (v.alarms.map (·.id)).Nodup
  below : ∀ a ∈ v.alarms, a.id < v.started
  ahead : ∀ a ∈ v.alarms, v.now < a.deadline → (a.deadline, a.id) ∈ v.timers
  due : ∀ a ∈ v.alarms, a.id ∉ amid → a.deadline ≤ v.now →
    (a.deadline, a.id) ∈ v.timers ∨ a.woken = true
  turns : ∀ a ∈ v.alarms, a.woken = true → .resume a.id ∈ v.turns

variable {v v' : Watch} {amid : List ℕ} {id : ℕ} {woken : Bool}

theorem ids_tell : (v.tell id woken).alarms.map (·.id) = v.alarms.map (·.id) := by
  rw [tell, List.map_map]
  refine List.map_congr_left fun a _ => ?_
  rw [Function.comp_apply]
  split <;> rfl

theorem mem_tell {b : Alarm} (h : b ∈ (v.tell id woken).alarms) :
    ∃ a ∈ v.alarms, b.id = a.id ∧ b.deadline = a.deadline ∧
      b.woken = if a.id = id then woken else a.woken := by
  obtain ⟨a, ha, rfl⟩ := List.mem_map.1 h
  refine ⟨a, ha, ?_⟩
  split_ifs <;> exact ⟨rfl, rfl, rfl⟩

namespace Alert

theorem weaken (h : v.Alert amid) (id : ℕ) : v.Alert (id :: amid) :=
  { h with due := fun a ha hid => h.due a ha fun hmem => hid (List.mem_cons_of_mem id hmem) }

/-- More turns and timers do no harm. -/
theorem more (h : v.Alert amid) (hnow : v'.now = v.now) (hstarted : v'.started = v.started)
    (halarms : v'.alarms = v.alarms) (htimers : v.timers ⊆ v'.timers)
    (hturns : v.turns ⊆ v'.turns) : v'.Alert amid where
  ids := halarms ▸ h.ids
  below a ha := hstarted ▸ h.below a (halarms ▸ ha)
  ahead a ha hlt := htimers (h.ahead a (halarms ▸ ha) (hnow ▸ hlt))
  due a ha hid hle := (h.due a (halarms ▸ ha) hid (hnow ▸ hle)).imp_left (htimers ·)
  turns a ha hwoken := hturns (h.turns a (halarms ▸ ha) hwoken)

/-- Who is over time by now was in time before and has a timer, or has a turn. -/
theorem later (h : v.Alert amid) {now : ℕ} (hnow : v.now ≤ now) :
    Alert { v with now := now } amid :=
  { h with
    ahead := fun a ha hlt => h.ahead a ha (hnow.trans_lt hlt)
    due := fun a ha hid _ => by
      by_cases hle : a.deadline ≤ v.now
      · exact h.due a ha hid hle
      · exact .inl (h.ahead a ha (not_le.1 hle)) }

/-- A run that has time left or is woken needs no attention. -/
theorem settle (h : v.Alert (id :: amid))
    (hid : ∀ a ∈ v.alarms, a.id = id → v.now < a.deadline ∨ a.woken = true) : v.Alert amid :=
  { h with
    due := fun a ha hamid hle => by
      by_cases heq : a.id = id
      · exact .inr ((hid a ha heq).resolve_left hle.not_gt)
      · exact h.due a ha (fun hmem => (List.mem_cons.1 hmem).elim heq hamid) hle }

/-- A run that is looked at needs its turn no more. -/
theorem sleep (h : Alert { v with turns := .resume id :: v.turns } amid) :
    (v.tell id false).Alert (id :: amid) where
  ids := ids_tell.symm ▸ h.ids
  below b hb := by
    obtain ⟨a, ha, hid, -⟩ := mem_tell hb
    exact hid ▸ h.below a ha
  ahead b hb := by
    obtain ⟨a, ha, hid, hdeadline, -⟩ := mem_tell hb
    rw [hid, hdeadline]
    exact h.ahead a ha
  due b hb := by
    obtain ⟨a, ha, hid, hdeadline, hwoken⟩ := mem_tell hb
    rw [hid, hdeadline, hwoken]
    intro hamid
    obtain ⟨hne, hamid⟩ := not_or.1 (mt List.mem_cons.2 hamid)
    rw [if_neg hne]
    exact h.due a ha hamid
  turns b hb := by
    obtain ⟨a, ha, hid, -, hwoken⟩ := mem_tell hb
    rw [hid, hwoken]
    split_ifs with heq
    · exact False.elim
    · intro hwoken
      rcases List.mem_cons.1 (h.turns a ha hwoken) with hturn | hturn
      · exact absurd (Turn.resume.inj hturn) heq
      · exact hturn

/-- Other turns than that of a run do not matter. -/
theorem drop {turn : Turn} (h : Alert { v with turns := turn :: v.turns } amid)
    (hturn : ∀ a ∈ v.alarms, .resume a.id ≠ turn) : v.Alert amid :=
  { h with
    turns := fun a ha hwoken =>
      (List.mem_cons.1 (h.turns a ha hwoken)).resolve_left (hturn a ha) }

/-- A run is woken. -/
theorem wake (h : v.Alert (id :: amid)) :
    Alert { v.tell id true with turns := v.turns ++ [.resume id] } amid where
  ids := ids_tell.symm ▸ h.ids
  below b hb := by
    obtain ⟨a, ha, hid, -⟩ := mem_tell hb
    exact hid ▸ h.below a ha
  ahead b hb := by
    obtain ⟨a, ha, hid, hdeadline, -⟩ := mem_tell hb
    rw [hid, hdeadline]
    exact h.ahead a ha
  due b hb := by
    obtain ⟨a, ha, hid, hdeadline, hwoken⟩ := mem_tell hb
    rw [hid, hdeadline, hwoken]
    intro hamid hle
    split_ifs with heq
    · exact .inr rfl
    · refine h.due a ha (fun hmem => ?_) hle
      exact (List.mem_cons.1 hmem).elim heq hamid
  turns b hb := by
    obtain ⟨a, ha, hid, -, hwoken⟩ := mem_tell hb
    rw [hid, hwoken]
    split_ifs with heq
    · exact fun _ => List.mem_append_right _ (List.mem_singleton.2 (congrArg Turn.resume heq))
    · exact fun hwoken => List.mem_append_left _ (h.turns a ha hwoken)

/-- A run ends. -/
theorem leave (h : v.Alert (id :: amid)) : (v.leave id).Alert amid where
  ids := h.ids.sublist (List.filter_sublist.map _)
  below a ha := h.below a (List.mem_of_mem_filter ha)
  ahead a ha hlt := by
    obtain ⟨ha, hid⟩ := List.mem_filter.1 ha
    exact List.mem_filter.2 ⟨h.ahead a ha hlt, hid⟩
  due a ha hamid hle := by
    obtain ⟨ha, hid⟩ := List.mem_filter.1 ha
    refine (h.due a ha (fun hmem => ?_) hle).imp_left fun ht => List.mem_filter.2 ⟨ht, hid⟩
    exact (List.mem_cons.1 hmem).elim (bne_iff_ne.1 hid) hamid
  turns a ha := h.turns a (List.mem_of_mem_filter ha)

/-- A run begins. -/
theorem begin (h : v.Alert amid) (deadline : ℕ) :
    Alert { v with
      started := v.started + 1
      timers := v.timers ++ [(deadline, v.started)]
      alarms := v.alarms ++ [⟨v.started, deadline, false⟩] } amid where
  ids := by
    rw [List.map_append]
    refine List.nodup_append.2 ⟨h.ids, List.nodup_singleton _, ?_⟩
    intro n hn m hm
    obtain ⟨a, ha, rfl⟩ := List.mem_map.1 hn
    rw [List.mem_singleton.1 hm]
    exact (h.below a ha).ne
  below a ha := by
    rcases List.mem_append.1 ha with ha | ha
    · exact (h.below a ha).trans (Nat.lt_succ_self _)
    · rw [List.mem_singleton.1 ha]
      exact Nat.lt_succ_self _
  ahead a ha hlt := by
    rcases List.mem_append.1 ha with ha | ha
    · exact List.mem_append_left _ (h.ahead a ha hlt)
    · rw [List.mem_singleton.1 ha]
      exact List.mem_append_right _ (List.mem_singleton_self _)
  due a ha hamid hle := by
    rcases List.mem_append.1 ha with ha | ha
    · exact (h.due a ha hamid hle).imp_left (List.mem_append_left _)
    · rw [List.mem_singleton.1 ha]
      exact .inl (List.mem_append_right _ (List.mem_singleton_self _))
  turns a ha hwoken := by
    rcases List.mem_append.1 ha with ha | ha
    · exact h.turns a ha hwoken
    · rw [List.mem_singleton.1 ha] at hwoken
      exact absurd hwoken Bool.false_ne_true

end Alert
end Watch

/-! ## What keeps the watch -/

section Watch
variable (s : CacheSystem) (id : ℕ)

/-- A run may change in whatever is not part of its alarm. -/
theorem watch_modify {f : Run → Run} (hf : ∀ r, (f r).alarm = r.alarm) :
    watch { s with pool := s.pool.modify id f } = s.watch :=
  Watch.ext rfl rfl rfl rfl (s.pool.map_modify id hf)

theorem watch_tell (woken : Bool) :
    watch { s with pool := s.pool.modify id fun r => { r with woken := woken } } =
      s.watch.tell id woken :=
  Watch.ext rfl rfl rfl rfl (s.pool.map_modify_of_key id (fun _ => rfl) fun _ => rfl)

theorem watch_hold (i : ℕ) : (s.hold id i).watch = s.watch := watch_modify s id fun _ => rfl

end Watch

section Alert
variable {s : CacheSystem} {id : ℕ} {amid : List ℕ}

theorem alert_wakeHead (h : s.watch.Alert amid) : s.wakeHead.watch.Alert amid := by
  rw [wakeHead]
  split
  · exact h
  · refine h.more rfl rfl rfl (List.Subset.refl _) fun turn hturn => ?_
    simp only [watch, List.mem_append] at hturn ⊢
    exact hturn.imp_left .inl

theorem alert_rejoin (h : s.watch.Alert amid) : s.rejoin.watch.Alert amid := by
  rw [rejoin]
  split_ifs
  · refine h.more rfl rfl rfl (List.Subset.refl _) fun turn hturn => ?_
    simp only [watch, List.mem_append] at hturn ⊢
    exact hturn.imp_right .inl
  · exact h.more rfl rfl rfl (List.Subset.refl _) (List.subset_cons_self _ _)
  · exact h

/-- The run of an alarm is the one that is found for its id. -/
theorem find?_of_alarm (hids : (s.watch.alarms.map (·.id)).Nodup) {a : Alarm}
    (ha : a ∈ s.watch.alarms) : ∃ r, s.pool.find? a.id = some r ∧ r.alarm = a := by
  obtain ⟨r, hr, rfl⟩ := List.mem_map.1 ha
  cases hfind : s.pool.find? r.alarm.id with
  | none => exact absurd (List.find?_eq_none.1 hfind r hr) (by simp [Run.alarm])
  | some q =>
    have hid : q.alarm.id = r.alarm.id := Pool.id_of_find? hfind
    exact ⟨q, rfl, List.inj_on_of_nodup_map hids
      (List.mem_map_of_mem (Pool.mem_of_find? hfind)) ha hid⟩

theorem alert_wake (h : s.watch.Alert (id :: amid)) : (s.wake id).watch.Alert amid := by
  rw [wake]
  split
  · rename_i hnone
    refine h.settle fun a ha hid => ?_
    obtain ⟨r, hr, -⟩ := find?_of_alarm h.ids ha
    exact absurd ((hid ▸ hr).symm.trans hnone) (Option.some_ne_none r)
  · rename_i r hr
    split
    · rename_i hwoken
      refine h.settle fun a ha hid => .inr ?_
      obtain ⟨q, hq, rfl⟩ := find?_of_alarm h.ids ha
      obtain rfl : q = r := Option.some.inj ((hid ▸ hq).symm.trans hr)
      exact hwoken
    · refine h.wake.more rfl rfl ?_ (List.Subset.refl _) fun turn hturn => ?_
      · exact (congrArg Watch.alarms (watch_tell s id true) :)
      · simp only [watch, List.mem_append] at hturn ⊢
        tauto

theorem alert_release (h : s.watch.Alert amid) (id : ℕ) : (s.release id).watch.Alert amid := by
  have hsame : watch { s with pool := s.pool.modify id fun r => { r with wait := .granted } } =
      s.watch := watch_modify s id fun _ => rfl
  exact alert_wake (hsame.symm ▸ h.weaken id)

theorem alert_passOn (h : s.watch.Alert amid) (i : ℕ) : (s.passOn i).watch.Alert amid := by
  rw [passOn]
  split
  · exact h
  · rename_i n _
    refine alert_release ?_ n
    rw [watch_hold]
    exact h

theorem alert_passOn_all (h : s.watch.Alert amid) (held : List ℕ) :
    (held.foldl passOn s).watch.Alert amid := by
  induction held generalizing s with
  | nil => exact h
  | cons i rest ih => exact ih (alert_passOn h i)

theorem alert_endRun (h : s.watch.Alert (id :: amid)) : (s.endRun id).watch.Alert amid := by
  refine alert_rejoin (alert_passOn_all ?_ _)
  have hleave : watch { s with
      pool := s.pool.finish id
      timers := s.timers.filter (fun t => t.2 != id)
      stripeLine := s.stripeLine.filter (fun w => w.2 != id)
      gateLine := s.gateLine.filter (fun w => w.2 != id) } = s.watch.leave id :=
    Watch.ext rfl rfl rfl rfl (s.pool.map_finish id fun _ => rfl)
  rw [hleave]
  exact h.leave

theorem alert_openGate (h : s.watch.Alert amid) (name : String) :
    (s.openGate name).watch.Alert amid := by
  rw [openGate]
  split
  · exact h
  · rename_i n _
    exact alert_release (s := { s with gateLine := s.gateLine.erase (name, n) }) h n

theorem alert_fire (h : s.watch.Alert []) : s.fire.watch.Alert [] := by
  have hwakes : ∀ (due : List (ℕ × ℕ)) (s : CacheSystem), s.watch.Alert (due.map Prod.snd) →
      (due.foldl (fun s t => s.wake t.2) s).watch.Alert [] := by
    intro due
    induction due with
    | nil => exact fun s h => h
    | cons t rest ih => exact fun s h => ih _ (alert_wake h)
  rw [fire, List.partition_eq_filter_filter]
  refine hwakes _ _ { h with ahead := fun a ha hlt => ?_, due := fun a ha hid hle => ?_ }
  · exact List.mem_filter.2 ⟨h.ahead a ha hlt, by simpa [watch] using hlt⟩
  · refine .inr ((h.due a ha List.not_mem_nil hle).resolve_left fun htimer => hid ?_)
    refine List.mem_map.2 ⟨(a.deadline, a.id), List.mem_mergeSort.2 ?_, rfl⟩
    exact List.mem_filter.2 ⟨htimer, by simpa [watch] using hle⟩

/-- A run that halts is cut off if its time is over. -/
theorem alert_suspend {r : Run} (h : s.watch.Alert [r.id])
    (hr : ∀ a ∈ s.watch.alarms, a.id = r.id → a.deadline = r.deadline) (rest : Job) (paid : Bool)
    (on : Wait) : (s.suspend r rest paid on).watch.Alert [] := by
  rw [suspend]
  split
  · exact alert_endRun (s := s.count .timeout r.task.ns) h
  · rename_i hlate
    have hset : watch { s with pool := s.pool.modify r.id fun r =>
        { r with rest := rest, paid := paid, wait := on } } = s.watch :=
      watch_modify s r.id fun _ => rfl
    have hsettled : s.watch.Alert [] :=
      h.settle fun a ha hid => .inl ((hr a ha hid).symm ▸ not_le.1 hlate)
    cases on with
    | «until» t =>
      exact (hset.symm ▸ hsettled).more rfl rfl rfl (List.subset_append_left _ _)
        (List.Subset.refl _)
    | nothing =>
      refine ((hset.symm ▸ hsettled).weaken r.id).wake.more rfl rfl ?_ (List.Subset.refl _) ?_
      · exact (congrArg Watch.alarms (watch_tell _ r.id true) :)
      · show _ ⊆ s.ready ++ (s.yielded ++ [Turn.resume r.id])
        rw [← List.append_assoc]
        exact List.Subset.refl _
    | _ => exact hset.symm ▸ hsettled

/-- What a run does until it halts leaves it asleep. -/
theorem watch_goOn (s : CacheSystem) (r : Run) : (s.goOn r).2.watch = s.watch.tell r.id false :=
  (goOn_frame watch_hold (fun _ _ _ _ _ _ _ => rfl) s r).trans (watch_tell s r.id false)

theorem deadline_of_tell (hids : (s.watch.alarms.map (·.id)).Nodup) {r : Run}
    (hr : s.pool.find? r.id = some r) {woken : Bool} :
    ∀ b ∈ (s.watch.tell r.id woken).alarms, b.id = r.id → b.deadline = r.deadline := by
  intro b hb hid
  obtain ⟨a, ha, hida, hdeadline, -⟩ := Watch.mem_tell hb
  obtain ⟨q, hq, rfl⟩ := find?_of_alarm hids ha
  rw [← hida, hid] at hq
  obtain rfl : q = r := Option.some.inj (hq.symm.trans hr)
  exact hdeadline

theorem alert_look (h : Watch.Alert { s.watch with turns := .resume id :: s.watch.turns } []) :
    (s.look id).watch.Alert [] := by
  have hlook := s.look_cases id
  generalize s.look id = s' at hlook ⊢
  cases hlook with
  | gone hnone =>
    refine h.drop fun a ha hid => ?_
    obtain ⟨r, hr, -⟩ := find?_of_alarm h.ids ha
    exact absurd ((Turn.resume.inj hid ▸ hr).symm.trans hnone) (Option.some_ne_none r)
  | @ended r finished _ _ _ => exact alert_endRun ((watch_goOn s r).symm ▸ h.sleep)
  | @halted r rest paid on hr _ _ =>
    have hgoes := watch_goOn s r
    exact alert_suspend (hgoes.symm ▸ h.sleep) (hgoes.symm ▸ deadline_of_tell h.ids hr) _ _ _
  | @late r _ _ =>
    exact alert_endRun (s := (s.asleep r.id).count .timeout r.task.ns)
      ((watch_tell s r.id false).symm ▸ h.sleep)
  | @early r hr hearly =>
    have htell : (s.asleep r.id).watch = s.watch.tell r.id false := watch_tell s r.id false
    refine (htell.symm ▸ h.sleep).settle fun a ha hid => .inl ?_
    exact (deadline_of_tell h.ids hr a (htell ▸ ha) hid).symm ▸ hearly

theorem alert_takeTask (h : s.watch.Alert []) : s.takeTask.watch.Alert [] := by
  rw [takeTask]
  split
  · refine h.more rfl rfl rfl (List.Subset.refl _) fun turn hturn => ?_
    simp only [watch, List.mem_append] at hturn ⊢
    tauto
  · split
    · exact h
    · rename_i r p hp
      refine alert_look (Watch.Alert.more (alert_wakeHead ?_) rfl rfl rfl (List.Subset.refl _)
        (List.subset_cons_self _ _))
      obtain ⟨t, later, -, rfl, rfl⟩ := Pool.start?_eq_some_iff.1 hp
      have hbegin := h.begin (s.now + s.pool.timeout)
      simpa [watch, Run.alarm, spend] using hbegin

theorem alert_goToQueue (h : s.watch.Alert []) : s.goToQueue.watch.Alert [] := by
  rw [goToQueue]
  split
  · exact alert_takeTask h
  · exact alert_takeTask (s := { s.spend with headAtQueue := true }) h

theorem alert_work {s' : CacheSystem} (h : s.watch.Alert []) (hs : s.Work s') :
    s'.watch.Alert [] := by
  cases hs with
  | @serve turn rest hready =>
    have hturns : s.watch.turns = turn :: (rest ++ s.yielded) := by
      rw [watch, hready, List.cons_append]
    have hserved : Watch.Alert
        { watch { s with ready := rest } with turns := turn :: (rest ++ s.yielded) } [] :=
      h.more rfl rfl rfl (List.Subset.refl _) fun _ hturn => hturns ▸ hturn
    cases turn with
    | arrive =>
      exact alert_rejoin (s := { s with ready := rest, left := turnLength })
        (hserved.drop fun _ _ => Turn.noConfusion)
    | head =>
      exact alert_goToQueue (s := { s with ready := rest, left := turnLength, headReady := false })
        (hserved.drop fun _ _ => Turn.noConfusion)
    | again =>
      exact alert_takeTask (s := { s with ready := rest, headReady := false })
        (hserved.drop fun _ _ => Turn.noConfusion)
    | resume id => exact alert_look (s := { s with ready := rest, left := turnLength }) hserved
  | turnBack hready =>
    refine h.more rfl rfl rfl (List.Subset.refl _) ?_
    simp [watch, hready]
  | tick time => exact h.later (le_max_left _ _)
  | fire => exact alert_fire h

theorem alert_act {tasks : Task → Prop} {s' : CacheSystem} (h : s.watch.Alert [])
    (hs : s.Act tasks s') : s'.watch.Alert [] := by
  cases hs with
  | work hs => exact alert_work h hs
  | @submit t ht =>
    rw [submit]
    split
    · exact h
    · rename_i p hp
      obtain ⟨-, rfl⟩ := Pool.submit?_eq_some_iff.1 hp
      exact alert_wakeHead (s := { s with
        pool := { s.pool with waiting := s.pool.waiting ++ [t], pending := s.pool.pending + 1 } }) h
  | openGate name => exact alert_openGate h name
  | count c ns => exact h
  | probe p => exact h

end Alert

/-! ## Runs at rest -/

variable {capacity workers queue timeout : ℕ} {tasks : Task → Prop} {s : CacheSystem}

theorem Reached.alert (h : s.Reached capacity workers queue timeout tasks) :
    s.watch.Alert [] := by
  induction h with
  | refl => constructor <;> simp [watch, start, Pool.empty]
  | tail _ hs ih => exact alert_act ih hs

/-- Every run of a system at rest has some of its time left. -/
theorem Reached.not_overdue (h : s.Reached capacity workers queue timeout tasks) (hrest : s.AtRest)
    {r : Run} (hr : r ∈ s.pool.running) : s.now < r.deadline := by
  by_contra hlate
  have hmem : r.alarm ∈ s.watch.alarms := List.mem_map_of_mem hr
  rcases h.alert.due r.alarm hmem List.not_mem_nil (not_lt.1 hlate) with htimer | hwoken
  · exact hlate (hrest.timers _ htimer)
  · have hturn := h.alert.turns r.alarm hmem hwoken
    simp [watch, hrest.ready, hrest.yielded] at hturn

end CacheSystem
end FilmCatalog
