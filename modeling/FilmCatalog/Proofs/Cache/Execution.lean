import FilmCatalog.Proofs.Cache.Rest
import FilmCatalog.Proofs.Cache.Stripes

/-!
# Systems as workshops

A system to which index tasks are submitted is a workshop over its own probe. Its
runs are workers that have the same stripes and the same left to do, and whatever
a system does in one piece of work, its workers can do in steps. A run that is
given a stripe on its way takes it there; one that is cut off gives back its
stripes, one after the other, and leaves. So what holds of all interleavings holds
of those that are executed.

Key definitions: `Backend.probe`, `Workshop.Shows`, `Workshop.Goes`, `Workshop.Visited`,
`CacheTask`.
Key theorems: `CacheSystem.goes_perform`, `CacheSystem.goes_look`, `CacheSystem.goes_work`,
`CacheSystem.Reached.exists_shown`, `never_locked_out`.
-/

namespace FilmCatalog

/-- The probe as a backend. What it answers to a value that would last too long is
left open, since the run that sets it panics. -/
def Backend.probe : Backend Probe where
  get p key answer after := p.get key = (answer, after)
  set _ p key value ttl answer after :=
    (∀ given ∈ (p.set key value ttl).1, given = answer) ∧ (p.set key value ttl).2 = after
  delete p key answer after := p.delete key = (answer, after)

/-! ## Workers and runs -/

/-- What a worker has and what is left of its job. -/
def Worker.part (w : Worker) : List ℕ × Job := (w.held, w.rest)

/-- What a run has and what is left of its job. -/
def Stand.part (a : Stand) : List ℕ × Job := (a.held, a.todo)

theorem Stand.part_eq {a : Stand} (h : ∀ i, a.wait ≠ .stripe i) : a.part = (a.held, a.rest) :=
  congrArg (Prod.mk a.held) (todo_eq_rest h)

namespace Workshop

/-- Whether a workshop over a probe is a lineup of runs over it. -/
structure Shows (c : CacheConfig) (w : Workshop Probe) (v : Lineup) (p : Probe) : Prop where
  waiting : w.waiting.map (IndexTask.task c) = v.waiting
  busy : w.busy.map Worker.part = v.stands.map Stand.part
  store : w.store = p

/-- Whether a workshop can come to be a lineup over a probe. -/
def Goes (c : CacheConfig) (workers : ℕ) (w : Workshop Probe) (v : Lineup) (p : Probe) : Prop :=
  ∃ w', Relation.ReflTransGen (Step c workers .probe True) w w' ∧ w'.Shows c v p

variable {c : CacheConfig} {workers : ℕ} {w : Workshop Probe} {v v' : Lineup}
  {p p' q : Probe} {a : Stand} {id : ℕ} {f g : Stand → Stand}

theorem Goes.head {w' : Workshop Probe}
    (hs : Relation.ReflTransGen (Step c workers .probe True) w w') (h : w'.Goes c workers v p) :
    w.Goes c workers v p := by
  obtain ⟨w'', hsteps, hshows⟩ := h
  exact ⟨w'', hs.trans hsteps, hshows⟩

theorem parts_change (hfg : ∀ a, (f a).part = (g a).part) :
    (v.change id f).stands.map Stand.part = (v.change id g).stands.map Stand.part := by
  simp only [Lineup.change, List.map_map]
  refine List.map_congr_left fun a _ => ?_
  simp only [Function.comp_apply]
  split
  · exact hfg a
  · rfl

namespace Shows

theorem goes (h : w.Shows c v p) : w.Goes c workers v p := ⟨w, .refl, h⟩

theorem congr (h : w.Shows c v p) (hwaiting : v'.waiting = v.waiting)
    (hparts : v'.stands.map Stand.part = v.stands.map Stand.part) : w.Shows c v' p :=
  ⟨h.waiting.trans hwaiting.symm, h.busy.trans hparts.symm, h.store⟩

/-- A run that comes to stand otherwise with the same stripes and the same left to do. -/
theorem same (h : w.Shows c (v.change id f) p) (hfg : ∀ a, (g a).part = (f a).part) :
    w.Shows c (v.change id g) p := h.congr rfl (parts_change hfg)

/-- A run that waits for a time has the same left to do. -/
theorem delayed {job : Job} (h : w.Shows c (v.onto id .nothing job) p) (time : ℕ) :
    w.Goes c workers (v.onto id (.until time) job) p :=
  goes (h.same fun _ => rfl)

/-- One run comes to stand otherwise with the same stripes and the same left to do. -/
theorem change (h : w.Shows c v p) (hids : (v.stands.map (·.id)).Nodup) (ha : a ∈ v.stands)
    (hpart : (f a).part = a.part) : w.Shows c (v.change a.id f) p := by
  refine h.congr rfl ?_
  rw [Lineup.change, List.map_map]
  refine List.map_congr_left fun b hb => ?_
  rw [Function.comp_apply]
  split
  · rename_i hid
    obtain rfl := List.inj_on_of_nodup_map hids hb ha hid
    exact hpart
  · rfl

theorem taken_eq (h : w.Shows c v p) : w.taken = v.taken := by
  have htaken := congrArg (List.flatMap Prod.fst) h.busy
  rw [List.flatMap_map, List.flatMap_map] at htaken
  exact htaken

/-- A run and its worker among the others. -/
theorem exists_around (h : w.Shows c (v.change a.id f) p) (hids : (v.stands.map (·.id)).Nodup)
    (ha : a ∈ v.stands) :
    ∃ before t behind, w.busy = before ++ ⟨t, (f a).todo, (f a).held⟩ :: behind ∧
      (∀ g q, Shows c { w with
          busy := before ++ ⟨t, (g a).todo, (g a).held⟩ :: behind
          store := q } (v.change a.id g) q) ∧
      Shows c { w with busy := before ++ behind } (v.leave a.id) p := by
  obtain ⟨before, behind, -, hothers, hchange⟩ := Lineup.exists_around hids ha
  have hbusy := h.busy
  rw [hchange, List.map_append, List.map_cons] at hbusy
  obtain ⟨front, ⟨t, rest, held⟩, back, hw, hfront, hpart, hback⟩ := exists_middle_of_map hbusy
  obtain ⟨rfl, rfl⟩ : held = (f a).held ∧ rest = (f a).todo := by
    simpa [Worker.part, Stand.part] using hpart
  refine ⟨front, t, back, hw, fun g q => ⟨h.waiting, ?_, rfl⟩, h.waiting, ?_, h.store⟩
  · rw [hchange, List.map_append, List.map_cons, List.map_append, List.map_cons, hfront, hback]
    rfl
  · show (front ++ back).map _ = (v.others a.id).map _
    rw [hothers, List.map_append, List.map_append, hfront, hback]

/-- The worker of a run makes a step. -/
theorem move (h : w.Shows c (v.change a.id f) p) (hids : (v.stands.map (·.id)).Nodup)
    (ha : a ∈ v.stands) (g : Stand → Stand)
    (hs : ∀ t, (Worker.mk t (f a).todo (f a).held).Step .probe True (v.change a.id f).taken p
      ⟨t, (g a).todo, (g a).held⟩ q)
    (hgoes : ∀ w', Shows c w' (v.change a.id g) q → w'.Goes c workers v' p') :
    w.Goes c workers v' p' := by
  obtain ⟨before, t, behind, hbusy, hshows, -⟩ := h.exists_around hids ha
  have hstep := hs t
  rw [← h.taken_eq, ← h.store] at hstep
  exact (hgoes _ (hshows g q)).head (.single (.work hbusy hstep))

/-- The worker of a run is cut off, gives back its stripes and leaves. -/
theorem leave (h : w.Shows c (v.change a.id f) p) (hids : (v.stands.map (·.id)).Nodup)
    (ha : a ∈ v.stands) (hgoes : ∀ w', Shows c w' (v.leave a.id) p → w'.Goes c workers v' p') :
    w.Goes c workers v' p' := by
  obtain ⟨before, t, behind, hbusy, -, hleave⟩ := h.exists_around hids ha
  exact (hgoes _ hleave).head (.head (.work hbusy (.cut trivial)) (leaves rfl rfl))

end Shows
end Workshop

namespace CacheSystem

open Workshop

variable {c : CacheConfig} {workers id : ℕ} {w : Workshop Probe} {s : CacheSystem}

/-! ## Runs that go on -/

/-- What a run does until it halts its worker can do in steps. -/
theorem goes_perform (job : Job) (paid : Bool) {a : Stand}
    (hids : (s.lineup.stands.map (·.id)).Nodup) (ha : a ∈ s.lineup.stands)
    (h : w.Shows c (s.lineup.onto a.id .nothing job) s.probe) :
    w.Goes c workers ((perform a.id job paid s).2.lineup.onto a.id
      (perform a.id job paid s).1.wait (perform a.id job paid s).1.rest)
      (perform a.id job paid s).2.probe := by
  induction job generalizing paid s a w with
  | done => exact h.goes
  | panic =>
    exact h.move hids ha (fun a => { a with wait := .nothing, rest := .done })
      (fun t => .panic rfl) fun w' => Shows.goes
  | lock i next ih =>
    rw [perform]
    split_ifs with hleft hfree
    · exact h.goes
    · have hself : { a with held := a.held ++ [i] } ∈ (s.spend.hold a.id i).lineup.stands := by
        rw [lineup_hold]
        exact List.mem_map.2 ⟨a, ha, if_pos rfl⟩
      have hsame : ((s.spend.hold a.id i).lineup.stands.map (·.id)).Nodup := by
        rw [lineup_hold, Lineup.ids_change (f := fun a => { a with held := a.held ++ [i] })]
        · exact hids
        · exact fun _ => rfl
      refine h.move hids ha
        (fun a => { a with held := a.held ++ [i], wait := .nothing, rest := next })
        (fun t => .lock rfl ?_)
        fun w' hw' => ih (a := { a with held := a.held ++ [i] }) false hsame hself ?_
      · rw [show (s.lineup.change a.id _).taken = s.lineup.taken from Lineup.taken_onto]
        exact (stripeFree_iff s).1 hfree
      · rw [lineup_hold, Lineup.onto, Lineup.change_change]
        · exact hw'
        · exact fun _ => rfl
    · have hlined : w.Shows c (s.lineup.onto a.id (.stripe i) next) s.probe := h.same fun _ => rfl
      exact ⟨w, .refl, hlined.congr rfl rfl⟩
  | get key next ih =>
    rw [perform]
    split_ifs
    · exact h.move hids ha (fun a => { a with wait := .nothing, rest := next (s.probe.get key).1 })
        (fun t => .get rfl rfl)
        fun w' hw' => ih _ (s := { s with probe := (s.probe.get key).2 }) false hids ha hw'
    · exact h.delayed _
  | set key value ttl next ih =>
    rw [perform]
    split_ifs
    · split
      · rename_i answer probe hset
        refine h.move hids ha (fun a => { a with wait := .nothing, rest := next answer })
          (fun t => .set rfl ⟨by simp [hset], congrArg Prod.snd hset⟩)
          fun w' hw' => ih _ (s := { s with probe := probe }) false hids ha hw'
      · rename_i probe hset
        refine h.move hids ha (fun a => { a with wait := .nothing, rest := next (.ok ()) })
          (fun t => .set rfl ⟨by simp [hset], congrArg Prod.snd hset⟩)
          fun w' hw' => hw'.move hids ha (fun a => { a with wait := .nothing, rest := .done })
            (fun t => .cut trivial) fun w' => Shows.goes
    · exact h.delayed _
  | delete key next ih =>
    rw [perform]
    split_ifs
    · exact h.move hids ha
        (fun a => { a with wait := .nothing, rest := next (s.probe.delete key).1 })
        (fun t => .delete rfl rfl)
        fun w' hw' => ih _ (s := { s with probe := (s.probe.delete key).2 }) false hids ha hw'
    · exact h.delayed _
  | count counter ns next ih =>
    exact h.move hids ha (fun a => { a with wait := .nothing, rest := next }) (fun t => .count rfl)
      fun w' hw' => ih (s := s.count counter ns) false hids ha hw'
  | sleep ms next ih =>
    rw [perform]
    split_ifs
    · exact h.move hids ha (fun a => { a with wait := .until (s.now + ms), rest := next })
        (fun t => .sleep rfl) fun w' => Shows.goes
    · exact h.goes
    · exact h.move hids ha (fun a => { a with wait := .nothing, rest := next })
        (fun t => .sleep rfl) fun w' hw' => ih (s := s.spend) false hids ha hw'
  | gate name next ih =>
    rw [perform]
    split_ifs
    · exact h.goes
    · exact h.move hids ha (fun a => { a with wait := .nothing, rest := next })
        (fun t => .gate rfl) fun w' hw' =>
          ih (s := { s.spend with openGates := s.openGates.erase name }) false hids ha hw'
    · exact h.move hids ha (fun a => { a with wait := .gate name, rest := next })
        (fun t => .gate rfl) fun w' hw' => ⟨w', .refl, hw'.congr rfl rfl⟩

/-! ## Runs that end -/

/-- The probe does not see who waits for what. -/
theorem probe_blind : Blind probe where
  modify _ _ _ _ := rfl
  turn _ _ := rfl
  lines _ _ _ _ _ := rfl

theorem probe_rejoin : s.rejoin.probe = s.probe := by
  rw [rejoin]
  split_ifs <;> rfl

theorem probe_wakeHead : s.wakeHead.probe = s.probe := by
  rw [wakeHead]
  split <;> rfl

/-- A run that is given a stripe takes it. -/
theorem goes_passOn {i : ℕ} {spare : List ℕ} (hsound : s.lineup.Sound (i :: spare))
    (h : w.Shows c s.lineup s.probe) :
    w.Goes c workers (s.passOn i).lineup (s.passOn i).probe := by
  rw [probe_blind.passOn, passOn]
  split
  · exact h.goes
  · rename_i j n hsome
    obtain rfl : j = i := by simpa using List.find?_some hsome
    obtain ⟨a, ha, rfl, hwait⟩ := (hsound.lined j n).1 (List.mem_of_find?_eq_some hsome)
    have hfree : j ∉ s.lineup.taken := fun hj =>
      (List.nodup_cons.1 hsound.nodup).1 (List.mem_append_right _ hj)
    rw [← Lineup.change_self (v := s.lineup)] at h
    refine h.move (q := s.probe) hsound.ids ha
      (fun a => { a with held := a.held ++ [j], wait := .granted }) (fun t => ?_)
      fun w' hw' => ⟨w', .refl, ?_⟩
    · have htodo : a.todo = .lock j a.rest := by rw [Stand.todo, hwait]
      rw [Lineup.change_self]
      exact .lock htodo hfree
    · rw [lineup_release, lineup_hold, Lineup.change_change]
      · exact hw'.congr rfl rfl
      · exact fun _ => rfl

theorem goes_passOn_all {held : List ℕ} (hsound : s.lineup.Sound held)
    (h : w.Shows c s.lineup s.probe) :
    w.Goes c workers (held.foldl passOn s).lineup (held.foldl passOn s).probe := by
  induction held generalizing s w with
  | nil => exact h.goes
  | cons i rest ih =>
    obtain ⟨w', hsteps, hw'⟩ := goes_passOn hsound h
    exact (ih (sound_passOn hsound) hw').head hsteps

/-- A run that ends gives back its stripes and leaves. -/
theorem goes_endRun {f : Stand → Stand} (hids : (s.lineup.stands.map (·.id)).Nodup)
    (hid : id ∈ s.pool.running.map (·.id))
    (hsound : ∀ a ∈ s.lineup.stands, a.id = id → (s.lineup.leave id).Sound a.held)
    (h : w.Shows c (s.lineup.change id f) s.probe) :
    w.Goes c workers (s.endRun id).lineup (s.endRun id).probe := by
  obtain ⟨r, hr, rfl, hfind⟩ := exists_find hid
  rw [endRun, hfind, lineup_rejoin, probe_rejoin]
  refine h.leave (a := r.stand) hids (mem_stands hr) fun w' hw' => ?_
  have hstands : (s.lineup.leave r.stand.id).stands =
      (s.pool.finish r.id).running.map Run.stand :=
    Eq.symm (s.pool.map_finish r.id fun _ => rfl)
  refine goes_passOn_all ?_ ⟨hw'.waiting, hw'.busy.trans (congrArg (List.map _) hstands), hw'.store⟩
  have hleave := hsound r.stand (mem_stands hr) rfl
  exact (congrArg (fun stands => Lineup.Sound r.held { s.lineup.leave r.id with stands })
    hstands).mp hleave

theorem goes_suspend {r : Run} (hids : (s.lineup.stands.map (·.id)).Nodup)
    (hid : r.id ∈ s.pool.running.map (·.id)) {rest : Job} {on : Wait} (paid : Bool)
    (hsound : (s.lineup.onto r.id on rest).Sound [])
    (h : w.Shows c (s.lineup.onto r.id on rest) s.probe) :
    w.Goes c workers (s.suspend r rest paid on).lineup (s.suspend r rest paid on).probe := by
  by_cases hlate : r.deadline ≤ s.now
  · rw [suspend, if_pos hlate]
    exact goes_endRun (s := s.count .timeout r.task.ns) hids hid
      (fun a ha hid => hsound.onto_leave ha hid) h
  · have hprobe : (s.suspend r rest paid on).probe = s.probe := by
      rw [suspend, if_neg hlate]
      cases on <;> rfl
    rw [lineup_suspend hlate, hprobe]
    exact h.goes

/-- What a run that can go on does until it halts its worker can do in steps. -/
theorem goes_goOn (hsound : s.lineup.Sound []) (h : w.Shows c s.lineup s.probe) {r : Run}
    (hr : s.pool.find? r.id = some r) (hgo : s.canGoOn r = true) :
    w.Goes c workers ((s.goOn r).2.lineup.onto r.id (s.goOn r).1.wait (s.goOn r).1.rest)
      (s.goOn r).2.probe := by
  have hsame := lineup_resumed s r
  have hself : r.stand ∈ (s.resumed r).lineup.stands :=
    hsame.symm ▸ mem_stands (Pool.mem_of_find? hr)
  have hprobe : (s.resumed r).probe = s.probe :=
    resumed_frame (fun _ => rfl) s r
  have hshows : w.Shows c (s.resumed r).lineup (s.resumed r).probe := by
    rw [hsame, hprobe]
    exact h
  have hpart := Stand.part_eq (a := r.stand) (not_lined_of_canGoOn hgo).1
  exact goes_perform r.rest r.paid (hsame.symm ▸ hsound.ids) hself
    (hshows.change (hsame.symm ▸ hsound.ids) hself hpart.symm)

/-- A run that is looked at goes on, ends, or has lost its turn only. -/
theorem goes_look (hsound : s.lineup.Sound []) (h : w.Shows c s.lineup s.probe) (id : ℕ) :
    w.Goes c workers (s.look id).lineup (s.look id).probe := by
  have hids : ∀ {r}, Halt.Fits r.id (s.goOn r) → ((s.goOn r).2.lineup.stands.map (·.id)).Nodup :=
    fun hfits => Lineup.ids_onto ▸ hfits.ids
  have hlook := s.look_cases id
  generalize s.look id = s' at hlook ⊢
  cases hlook with
  | gone => exact h.goes
  | @ended r finished hr hgo _ =>
    have hfits := fits_goOn hsound hr hgo
    obtain ⟨w', hsteps, hw'⟩ : w.Goes c workers _ _ := goes_goOn hsound h hr hgo
    exact .head hsteps (goes_endRun (hids hfits) (mem_ids_of_find? hr (staff_goOn s r))
      (fun a ha hid => hfits.onto_leave ha hid) hw')
  | @halted r rest paid on hr hgo hhalt =>
    have hfits := fits_goOn hsound hr hgo
    obtain ⟨w', hsteps, hw'⟩ : w.Goes c workers _ _ := goes_goOn hsound h hr hgo
    have hstands := hids hfits
    rw [Halt.Fits, hhalt] at hfits
    rw [hhalt] at hw'
    exact .head hsteps
      (goes_suspend hstands (mem_ids_of_find? hr (staff_goOn s r)) _ hfits hw')
  | @late r hr _ =>
    rw [← lineup_asleep s r.id] at hsound h
    refine goes_endRun (s := (s.asleep r.id).count .timeout r.task.ns) (f := fun a => a) hsound.ids
      (mem_ids_of_find? hr (staff_asleep s r.id)) (fun a ha hid => hid ▸ hsound.leave ha) ?_
    rw [Lineup.change_self]
    exact h
  | @early r _ _ =>
    rw [lineup_asleep]
    exact h.goes

/-! ## Workers and the foreground -/

variable {queue timeout : ℕ}

/-- Where a worker stands in line not all are busy. -/
theorem Kept.running_lt {loose : ℕ} (h : Kept (Roster.Reachable workers queue timeout) loose s)
    (hparked : 0 < s.parked) : s.pool.running.length < max workers 1 := by
  obtain ⟨t, ht, hpool, -, -, hleaving, hfree⟩ := h.books
  have hall := ht.sound.free_add
  rw [hfree, hleaving, hpool, List.length_nil] at hall
  omega

/-- The head of the line begins a task. -/
theorem goes_takeTask (hkept : Kept (Roster.Reachable workers queue timeout) 0 s)
    (hparked : 0 < s.parked) (hsound : s.lineup.Sound []) (h : w.Shows c s.lineup s.probe) :
    w.Goes c (max workers 1) s.takeTask.lineup s.takeTask.probe := by
  rw [takeTask]
  split
  · exact h.goes
  · split
    · exact h.goes
    · rename_i r p hp
      obtain ⟨t, later, hwaiting, rfl, rfl⟩ := Pool.start?_eq_some_iff.1 hp
      obtain ⟨u, us, hw, rfl, hus⟩ := List.map_eq_cons_iff.1 (h.waiting.trans hwaiting)
      have hroom : w.busy.length < max workers 1 := by
        have hlength := congrArg List.length h.busy
        rw [List.length_map, List.length_map, lineup, List.length_map] at hlength
        exact hlength ▸ hkept.running_lt hparked
      have hjob : (u.task c).job = u.job c := by cases u <;> rfl
      refine Goes.head (.single (.begin hw hroom)) (goes_look ?_ ⟨?_, ?_, ?_⟩ _)
      · rw [lineup_wakeHead]
        have hbegin := hsound.begin hwaiting
        simpa [lineup, Run.stand, spend] using hbegin
      · rw [lineup_wakeHead]
        exact hus
      · rw [lineup_wakeHead]
        simp only [lineup, List.map_append, List.map_singleton]
        refine congrArg₂ _ h.busy ?_
        rw [hjob]
        rfl
      · rw [probe_wakeHead]
        exact h.store

theorem goes_goToQueue (hkept : Kept (Roster.Reachable workers queue timeout) 0 s)
    (hparked : 0 < s.parked) (hsound : s.lineup.Sound []) (h : w.Shows c s.lineup s.probe) :
    w.Goes c (max workers 1) s.goToQueue.lineup s.goToQueue.probe := by
  rw [goToQueue]
  split
  · exact goes_takeTask hkept hparked hsound h
  · exact goes_takeTask (s := { s.spend with headAtQueue := true }) (hkept.of_staff rfl) hparked
      hsound h

/-- A piece of background work is done in steps of the workers. -/
theorem goes_work {s' : CacheSystem} (hkept : Kept (Roster.Reachable workers queue timeout) 0 s)
    (hsound : s.lineup.Sound []) (h : w.Shows c s.lineup s.probe) (hs : s.Work s') :
    w.Goes c (max workers 1) s'.lineup s'.probe := by
  cases hs with
  | @serve turn rest hready =>
    cases turn with
    | arrive =>
      rw [serve, lineup_rejoin, probe_rejoin]
      exact h.goes
    | head =>
      obtain ⟨hkept, hparked⟩ := hkept.step_up hready (.inl rfl) turnLength
      exact goes_goToQueue hkept hparked hsound h
    | again =>
      obtain ⟨hkept, hparked⟩ := hkept.step_up hready (.inr rfl) s.left
      exact goes_takeTask hkept hparked hsound h
    | resume n => exact goes_look (s := { s with ready := rest, left := turnLength }) hsound h n
  | turnBack hready => exact h.goes
  | tick time => exact h.goes
  | fire =>
    rw [lineup_fire, probe_blind.fire]
    exact h.goes

end CacheSystem

/-- The tasks of a similarity cache. -/
def IndexTask.Made (c : CacheConfig) (t : Task) : Prop := ∃ u : IndexTask, t = u.task c

theorem IndexTask.Made.climbs {c : CacheConfig} {t : Task} (h : Made c t) : t.job.Climbs [] := by
  obtain ⟨u, rfl⟩ := h
  rw [show (u.task c).job = u.job c by cases u <;> rfl]
  exact climbs_job c u

/-- The workshops over a probe that come from one without tasks, if something else calls
the backend between their steps. -/
def Workshop.Visited (c : CacheConfig) (workers : ℕ) (p : Probe) (w : Workshop Probe) : Prop :=
  Relation.ReflTransGen (fun w w' : Workshop Probe =>
    w.Step c workers .probe True w' ∨ ∃ q, w' = { w with store := q }) ⟨[], [], p⟩ w

namespace CacheSystem

variable {c : CacheConfig} {capacity workers queue timeout : ℕ} {s : CacheSystem}

/-- A system to which index tasks are submitted is a workshop over its own probe, which the
foreground calls as well. -/
theorem Reached.exists_shown (h : s.Reached capacity workers queue timeout (IndexTask.Made c)) :
    ∃ w : Workshop Probe, w.Visited c (max workers 1) (.empty capacity) ∧
      w.Shows c s.lineup s.probe := by
  induction h with
  | refl =>
    refine ⟨_, .refl, ?_, ?_, ?_⟩ <;> simp [lineup, CacheSystem.start, Pool.empty]
  | @tail s s' hr hs ih =>
    obtain ⟨w, hw, hshows⟩ := ih
    have hsound : s.lineup.Sound [] := Reached.sound (fun t ht => ht.climbs) hr
    cases hs with
    | work hs =>
      obtain ⟨w', hsteps, hw'⟩ := goes_work (Reached.kept hr) hsound hshows hs
      exact ⟨w', hw.trans (hsteps.lift id fun _ _ => .inl), hw'⟩
    | @submit t ht =>
      obtain ⟨u, rfl⟩ := ht
      rw [submit]
      split
      · exact ⟨w, hw, hshows⟩
      · rename_i p hp
        obtain ⟨-, rfl⟩ := Pool.submit?_eq_some_iff.1 hp
        refine ⟨_, hw.tail (.inl (.submit u)), ?_, ?_, ?_⟩
        · rw [lineup_wakeHead]
          simp only [lineup, List.map_append, List.map_singleton]
          exact congrArg (· ++ [u.task c]) hshows.waiting
        · rw [lineup_wakeHead]
          exact hshows.busy
        · rw [probe_wakeHead]
          exact hshows.store
    | openGate name =>
      refine ⟨w, hw, ?_⟩
      rw [probe_blind.openGate, openGate]
      split
      · exact hshows
      · rename_i gate n hsome
        obtain ⟨a, ha, rfl, hwait⟩ := hsound.gated _ (List.mem_of_find?_eq_some hsome)
        have hpart : Stand.part { a with wait := .granted } = a.part :=
          (Stand.part_eq (a := a) (by simp [hwait])).symm
        have hpassed := hshows.change (f := fun a => { a with wait := .granted }) hsound.ids ha
          hpart
        rw [lineup_release]
        exact hpassed.congr rfl rfl
    | count n ns => exact ⟨w, hw, hshows⟩
    | probe p => exact ⟨_, hw.tail (.inr ⟨p, rfl⟩), hshows.waiting, hshows.busy, rfl⟩

end CacheSystem

/-! ## The tasks of the caches -/

/-- The tasks that the caches submit. -/
inductive CacheTask (c : CacheConfig) : Task → Prop where
  | index (t : IndexTask) : CacheTask c (t.task c)
  | store (ns : Namespace) (key : String) (value : ByteArray) (ttl : ℕ) :
      CacheTask c ⟨ns, key, Job.store ns key value ttl⟩

theorem CacheTask.climbs {c : CacheConfig} {t : Task} (h : CacheTask c t) : t.job.Climbs [] := by
  cases h with
  | index t => exact IndexTask.Made.climbs ⟨t, rfl⟩
  | store ns key value ttl =>
    intro answer
    cases answer <;> trivial

/-- Whatever index tasks are submitted, for posts of any ids, however many
workers run them and in whatever order they take their steps, fail or are cut
off: every post has a stripe; no worker wants a stripe that it holds; no workers
wait for each other in a circle, and one of them does not wait. A worker whose
task ends, by itself or cut off anywhere, gives back its stripes without waiting,
and they are free when it has left. If the backend answers, all tasks can end.

So it is in executed systems, where a stripe that is given back goes to the run
that waited longest: no two runs hold one stripe, and none waits for a stripe
that is free. If there are index tasks only, the runs of a system are the workers
of such a workshop over its probe. -/
theorem never_locked_out (c : CacheConfig) (workers : ℕ) :
    (∀ id : Int, stripe id < stripeCount) ∧
    (∀ (σ : Type) (B : Backend σ) (store : σ) (s : Workshop σ),
      s.Reachable c workers B True store →
      (∀ w ∈ s.busy, ∀ i, w.wants? = some i → i < stripeCount ∧ i ∉ w.held) ∧
      (∀ a, ¬ Relation.TransGen s.Waits a a) ∧
      (s.busy ≠ [] → ∃ w ∈ s.busy, ∀ i, w.wants? = some i → i ∉ s.taken) ∧
      (∀ before w behind, s.busy = before ++ w :: behind →
        (w.rest = .done → Relation.ReflTransGen (Workshop.Step c workers B False) s
          { s with busy := before ++ behind }) ∧
        Relation.ReflTransGen (Workshop.Step c workers B True) s
          { s with busy := before ++ behind } ∧
        ∀ i ∈ w.held, i ∉ Workshop.taken { s with busy := before ++ behind }) ∧
      (B.Answers → ∃ after, Relation.ReflTransGen (Workshop.Step c workers B False) s
        ⟨s.waiting, [], after⟩)) ∧
    ∀ (capacity queue timeout : ℕ) (s : CacheSystem),
      s.Reached capacity workers queue timeout (CacheTask c) →
      (∀ r ∈ s.pool.running, ∀ i, r.wait = .stripe i →
        i < stripeCount ∧ i ∉ r.held ∧ ∃ q ∈ s.pool.running, i ∈ q.held) ∧
      (∀ r ∈ s.pool.running, ∀ q ∈ s.pool.running, ∀ i ∈ r.held, i ∈ q.held → r.id = q.id) ∧
      (∀ n, ¬ Relation.TransGen s.WaitsFor n n) ∧
      (s.pool.running ≠ [] → ∃ r ∈ s.pool.running, ∀ i, r.wait ≠ .stripe i) ∧
      (s.Reached capacity workers queue timeout (IndexTask.Made c) →
        ∃ w : Workshop Probe, w.Visited c (max workers 1) (.empty capacity) ∧
          w.Shows c s.lineup s.probe) := by
  refine ⟨stripe_lt, fun σ B store s h => ?_, fun capacity queue timeout s h => ?_⟩
  · have hs := h.orderly
    refine ⟨fun w hw i hi => ?_, hs.not_cycle, hs.exists_not_waiting,
      fun before w behind hbusy => ⟨Workshop.leaves hbusy, ?_, fun i => hs.free_of_left hbusy⟩,
      hs.drains⟩
    · obtain ⟨hlt, habove⟩ := hs.lt_of_wants hw hi
      exact ⟨hlt, fun hmem => (habove i hmem).false⟩
    · exact .head (.work hbusy (.cut trivial)) (Workshop.leaves rfl rfl)
  · have hs := h.sound fun t ht => ht.climbs
    refine ⟨fun r hr i hwait => ?_, fun r hr q hq i => CacheSystem.id_eq_of_held hs hr hq,
      CacheSystem.not_cycle hs, CacheSystem.exists_not_waiting hs,
      CacheSystem.Reached.exists_shown⟩
    obtain ⟨hlt, habove, hheld⟩ := CacheSystem.lt_of_waits hs hr hwait
    exact ⟨hlt, fun hmem => (habove i hmem).false, hheld⟩

/-- Posts -1 and 63 have the same stripe. While it is held for one of them the
worker of the other waits, and the first can be cut off and leaves it free. In a
system whose backend is slow to answer it comes to that. -/
theorem locked_out_for_now :
    (∃ s : Workshop Shelf, s.Reachable {} 2 .steady True (fun _ => none) ∧ s.taken = [63] ∧
      s.Waits 1 0 ∧ ¬ Relation.TransGen s.Waits 0 0 ∧
      ∃ w, Relation.ReflTransGen (Workshop.Step {} 2 .steady True) s { s with busy := [w] } ∧
        w.wants? = some 63 ∧ 63 ∉ w.held) ∧
    ∃ s : CacheSystem, s.Reached 1 2 2 5000 (CacheTask {}) ∧ ∃ r ∈ s.pool.running,
      r.wait = .stripe 63 ∧ ∃ q ∈ s.pool.running, 63 ∈ q.held := by
  refine ⟨?_, ?_⟩
  · have hstart : Workshop.Reachable {} 2 .steady True (fun _ => none) ⟨[], [], fun _ => none⟩ :=
      .refl
    have hbegun := (((hstart.tail (.submit (.forget (-1)))).tail (.submit (.forget 63))).tail
      (.begin rfl (by decide))).tail (.begin rfl (by decide))
    have hlocked := hbegun.tail
      (.work (show _ = [] ++ ⟨_, (IndexTask.forget (-1)).job {}, []⟩ :: [_] from rfl)
        (.lock (i := 63) rfl List.not_mem_nil))
    obtain ⟨hwants, hcycle, -, hleave, -⟩ := (never_locked_out {} 2).2.1 _ _ _ _ hlocked
    have hwant := (hwants ⟨.forget 63, (IndexTask.forget 63).job {}, []⟩
      (List.mem_cons_of_mem _ List.mem_cons_self) 63 rfl).2
    exact ⟨_, hlocked, rfl, ⟨63, ⟨_, rfl, rfl⟩, _, rfl, List.mem_cons_self⟩, hcycle 0, _,
      (hleave [] _ _ rfl).2.1, rfl, hwant⟩
  · let slow : CacheSystem := { CacheSystem.start 1 2 2 5000 with
      probe := { Probe.empty 1 with delays := [(.get, 10)] } }
    let s := (slow.submit ((IndexTask.forget (-1)).task {})).2
    let s' := (s.submit ((IndexTask.forget 63).task {})).2
    have hslow : slow.Reached 1 2 2 5000 (CacheTask {}) := .single (.probe _)
    have hbusy : s'.Reached 1 2 2 5000 (CacheTask {}) :=
      (hslow.tail (.submit (.index _))).tail (.submit (.index _))
    have hrun : s'.run.Reached 1 2 2 5000 (CacheTask {}) :=
      hbusy.works (CacheSystem.comes_run s').works
    have hturns : (CacheSystem.runWithin 20 s').isSome = true := by decide +kernel
    have hany : (s'.run.pool.running.any fun r => r.wait == .stripe 63) = true := by
      rw [CacheSystem.run_eq_getD hturns]
      decide +kernel
    obtain ⟨r, hr, hwait⟩ := List.any_eq_true.1 hany
    obtain ⟨hwaits, -⟩ := (never_locked_out {} 2).2.2 1 2 5000 _ hrun
    exact ⟨_, hrun, r, hr, by simpa using hwait, (hwaits r hr 63 (by simpa using hwait)).2.2⟩

end FilmCatalog
