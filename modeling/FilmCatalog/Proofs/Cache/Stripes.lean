import FilmCatalog.Proofs.Cache.Background
import FilmCatalog.Proofs.Cache.Lineup

/-!
# Stripes of an executed system

Whatever happens in a system to which only jobs that climb are submitted, its
lineup stays sound (`CacheSystem.sound_act`). While a run goes on its pool still
has it as it stood before; where it has halted it stands only when it is
suspended (`CacheSystem.Halt.Fits`).

Key definitions: `CacheSystem.lineup`, `CacheSystem.Halt.Fits`, `CacheSystem.WaitsFor`.
Key theorems: `CacheSystem.fits_perform`, `CacheSystem.sound_look`, `CacheSystem.sound_act`,
`CacheSystem.Reached.sound`, `CacheSystem.not_cycle`.
-/

namespace FilmCatalog

/-! ## The lineup of a system -/

namespace CacheSystem

/-- The lineup of a system. -/
def lineup (s : CacheSystem) : Lineup where
  waiting := s.pool.waiting
  started := s.pool.started
  stands := s.pool.running.map Run.stand
  line := s.stripeLine
  gates := s.gateLine

section Lineup
variable (s : CacheSystem) (id : ℕ) {f : Run → Run}

theorem lineup_modify {g : Stand → Stand} (hf : ∀ r, (f r).stand = g r.stand) :
    lineup { s with pool := s.pool.modify id f } = s.lineup.change id g :=
  Lineup.ext rfl rfl (s.pool.map_modify_of_key id (fun _ => rfl) hf) rfl rfl

/-- A run may change in whatever is not part of how it stands. -/
theorem lineup_modify_same (hf : ∀ r, (f r).stand = r.stand) :
    lineup { s with pool := s.pool.modify id f } = s.lineup :=
  Lineup.ext rfl rfl (s.pool.map_modify id hf) rfl rfl

theorem lineup_wake : (s.wake id).lineup = s.lineup := by
  rw [wake]
  split
  · rfl
  · split
    · rfl
    · exact lineup_modify_same s id fun _ => rfl

theorem lineup_fire : s.fire.lineup = s.lineup := by
  suffices ∀ (due : List (ℕ × ℕ)) (s : CacheSystem),
      (due.foldl (fun s t => s.wake t.2) s).lineup = s.lineup from this _ _
  intro due
  induction due with
  | nil => exact fun s => rfl
  | cons t rest ih => exact fun s => (ih _).trans (lineup_wake s t.2)

theorem lineup_wakeHead : s.wakeHead.lineup = s.lineup := by
  rw [wakeHead]
  split <;> rfl

theorem lineup_rejoin : s.rejoin.lineup = s.lineup := by
  rw [rejoin]
  split_ifs <;> rfl

theorem lineup_hold (i : ℕ) :
    (s.hold id i).lineup = s.lineup.change id fun a => { a with held := a.held ++ [i] } :=
  lineup_modify s id fun _ => rfl

theorem lineup_release :
    (s.release id).lineup = s.lineup.change id fun a => { a with wait := .granted } := by
  rw [release, lineup_wake]
  exact lineup_modify s id fun _ => rfl

theorem lineup_asleep : (s.asleep id).lineup = s.lineup := lineup_modify_same s id fun _ => rfl

theorem lineup_resumed (r : Run) : (s.resumed r).lineup = s.lineup :=
  (resumed_frame (fun _ => rfl) s r).trans (lineup_asleep s r.id)

theorem stripeFree_iff {i : ℕ} : s.stripeFree i = true ↔ i ∉ s.lineup.taken := by
  simp [stripeFree, Lineup.taken, lineup, List.flatMap_map, Run.stand]

variable {s id}

theorem mem_stands {r : Run} (hr : r ∈ s.pool.running) : r.stand ∈ s.lineup.stands :=
  List.mem_map_of_mem hr

end Lineup

/-! ## What keeps the lineup in order -/

/-- What a halted run waits for. -/
def Halt.wait : Halt → Wait
  | .waits _ _ on => on
  | _ => .nothing

/-- What is left of the job of a halted run. -/
def Halt.rest : Halt → Job
  | .waits rest _ _ => rest
  | _ => .done

/-- Whether a run can be where it has halted. -/
def Halt.Fits (id : ℕ) (halted : Halt × CacheSystem) : Prop :=
  (halted.2.lineup.onto id halted.1.wait halted.1.rest).Sound []

section Sound
variable {s : CacheSystem} {id i : ℕ} {spare : List ℕ} {wait : Wait} {job : Job}

/-- A stripe that was given back goes to the run that waited longest for it. -/
theorem sound_passOn (h : s.lineup.Sound (i :: spare)) : (s.passOn i).lineup.Sound spare := by
  rw [passOn]
  split
  · rename_i hnone
    exact h.drop fun w hw => by simpa using List.find?_eq_none.1 hnone w hw
  · rename_i j n hsome
    obtain rfl : j = i := by simpa using List.find?_some hsome
    obtain ⟨a, ha, rfl, hwait⟩ := (h.lined j n).1 (List.mem_of_find?_eq_some hsome)
    have htodo : a.todo = .lock j a.rest := by rw [Stand.todo, hwait]
    have hgain := h.gain (fun a => { a with held := a.held ++ [j], wait := .granted }) ha rfl rfl
      htodo (.inr hwait) (.inr rfl)
    rw [lineup_release, lineup_hold, Lineup.change_change]
    · exact hgain
    · exact fun _ => rfl

theorem sound_passOn_all {held : List ℕ} (h : s.lineup.Sound held) :
    (held.foldl passOn s).lineup.Sound [] := by
  induction held generalizing s with
  | nil => exact h
  | cons i rest ih => exact ih (sound_passOn h)

theorem fits_perform (job : Job) (paid : Bool) {a : Stand} (ha : a ∈ s.lineup.stands)
    (h : (s.lineup.onto a.id .nothing job).Sound []) :
    Halt.Fits a.id (perform a.id job paid s) := by
  induction job generalizing paid s a with
  | done => exact h
  | panic => exact h.onto_go ha (.inl rfl) fun _ => trivial
  | lock i next ih =>
    rw [perform]
    split_ifs with hleft hfree
    · exact h
    · have hself : { a with held := a.held ++ [i] } ∈ (s.spend.hold a.id i).lineup.stands := by
        rw [lineup_hold]
        exact List.mem_map.2 ⟨a, ha, if_pos rfl⟩
      refine ih (a := { a with held := a.held ++ [i] }) false hself ?_
      rw [lineup_hold]
      exact h.onto_take ha ((stripeFree_iff s).1 hfree)
    · have htaken : i ∈ s.lineup.taken := by
        by_contra hnot
        exact hfree ((stripeFree_iff s).2 hnot)
      exact h.onto_lineUp ha htaken
  | get key next ih =>
    rw [perform]
    split_ifs
    · exact ih _ false ha (h.onto_go ha (.inl rfl) fun hclimbs => hclimbs _)
    · exact h.onto_go ha (.inr ⟨_, rfl⟩) id
  | set key value ttl next ih =>
    rw [perform]
    split_ifs
    · split
      · rename_i probe _
        exact ih _ false ha (h.onto_go ha (.inl rfl) fun hclimbs => hclimbs _)
      · exact h.onto_go ha (.inl rfl) fun _ => trivial
    · exact h.onto_go ha (.inr ⟨_, rfl⟩) id
  | delete key next ih =>
    rw [perform]
    split_ifs
    · exact ih _ false ha (h.onto_go ha (.inl rfl) fun hclimbs => hclimbs _)
    · exact h.onto_go ha (.inr ⟨_, rfl⟩) id
  | count c ns next ih => exact ih false ha (h.onto_go ha (.inl rfl) id)
  | sleep ms next ih =>
    rw [perform]
    split_ifs
    · exact h.onto_go ha (.inr ⟨_, rfl⟩) id
    · exact h
    · exact ih false ha (h.onto_go ha (.inl rfl) id)
  | gate name next ih =>
    rw [perform]
    split_ifs
    · exact h
    · exact ih false ha (h.onto_go ha (.inl rfl) id)
    · exact h.onto_gateUp ha

/-! ## Ends and waits -/

theorem exists_find (hid : id ∈ s.pool.running.map (·.id)) :
    ∃ r ∈ s.pool.running, r.id = id ∧ s.pool.find? id = some r := by
  obtain ⟨r, hr, hrid⟩ := List.mem_map.1 hid
  have hsome : (s.pool.find? id).isSome = true :=
    List.find?_isSome.2 ⟨r, hr, beq_iff_eq.2 hrid⟩
  obtain ⟨q, hq⟩ := Option.isSome_iff_exists.1 hsome
  exact ⟨q, Pool.mem_of_find? hq, Pool.id_of_find? hq, hq⟩

theorem sound_endRun (hid : id ∈ s.pool.running.map (·.id))
    (h : ∀ a ∈ s.lineup.stands, a.id = id → (s.lineup.leave id).Sound a.held) :
    (s.endRun id).lineup.Sound [] := by
  obtain ⟨r, hr, rfl, hfind⟩ := exists_find hid
  rw [endRun, hfind, lineup_rejoin]
  refine sound_passOn_all ?_
  have hleave := h r.stand (mem_stands hr) rfl
  have hstands : (s.lineup.leave r.stand.id).stands =
      (s.pool.finish r.id).running.map Run.stand :=
    Eq.symm (s.pool.map_finish r.id fun _ => rfl)
  exact (congrArg (fun stands => Lineup.Sound r.held { s.lineup.leave r.id with stands })
    hstands).mp hleave

theorem sound_cutOff {r : Run} (hid : r.id ∈ s.pool.running.map (·.id))
    (h : ∀ a ∈ s.lineup.stands, a.id = r.id → (s.lineup.leave r.id).Sound a.held) :
    (s.cutOff r).lineup.Sound [] :=
  sound_endRun (s := s.count .timeout r.task.ns) hid h

/-- A run that is not cut off stands as it halted. -/
theorem lineup_suspend {r : Run} (hlate : ¬ r.deadline ≤ s.now) (rest : Job) (paid : Bool)
    (on : Wait) : (s.suspend r rest paid on).lineup = s.lineup.onto r.id on rest := by
  have hset : lineup { s with pool := s.pool.modify r.id fun r =>
      { r with rest := rest, paid := paid, wait := on } } = s.lineup.onto r.id on rest :=
    lineup_modify s r.id fun _ => rfl
  rw [suspend, if_neg hlate]
  cases on with
  | nothing =>
    exact (lineup_modify_same (f := fun r => { r with woken := true }) _ r.id fun _ => rfl).trans
      hset
  | _ => exact hset

theorem sound_suspend {r : Run} (hid : r.id ∈ s.pool.running.map (·.id)) (rest : Job) (paid : Bool)
    (on : Wait) (h : (s.lineup.onto r.id on rest).Sound []) :
    (s.suspend r rest paid on).lineup.Sound [] := by
  by_cases hlate : r.deadline ≤ s.now
  · rw [suspend, if_pos hlate]
    exact sound_cutOff hid fun a ha hid => h.onto_leave ha hid
  · rw [lineup_suspend hlate]
    exact h

/-- A run that can go on is in no line. -/
theorem not_lined_of_canGoOn {r : Run} (hgo : s.canGoOn r = true) :
    (∀ i, r.wait ≠ .stripe i) ∧ ∀ name, r.wait ≠ .gate name := by
  refine ⟨fun i hwait => ?_, fun name hwait => ?_⟩
  · rw [canGoOn, hwait] at hgo
    cases hgo
  · rw [canGoOn, hwait] at hgo
    cases hgo

/-- A run that can go on fits where it halts. -/
theorem fits_goOn (h : s.lineup.Sound []) {r : Run} (hr : s.pool.find? r.id = some r)
    (hgo : s.canGoOn r = true) : Halt.Fits r.id (s.goOn r) := by
  obtain ⟨hstripe, hgate⟩ := not_lined_of_canGoOn hgo
  have hself := mem_stands (Pool.mem_of_find? hr)
  have hsame := (lineup_resumed s r).symm
  exact fits_perform r.rest r.paid (hsame ▸ hself) (hsame ▸ h.resume hself hstripe hgate)

theorem sound_look (h : s.lineup.Sound []) (id : ℕ) : (s.look id).lineup.Sound [] := by
  have hlook := s.look_cases id
  generalize s.look id = s' at hlook ⊢
  cases hlook with
  | gone => exact h
  | @ended r finished hr hgo _ =>
    exact sound_endRun (mem_ids_of_find? hr (staff_goOn s r)) fun a ha hid =>
      (fits_goOn h hr hgo).onto_leave ha hid
  | @halted r rest paid on hr hgo hhalt =>
    have hfits := fits_goOn h hr hgo
    rw [Halt.Fits, hhalt] at hfits
    exact sound_suspend (mem_ids_of_find? hr (staff_goOn s r)) _ _ _ hfits
  | @late r hr _ =>
    refine sound_cutOff (mem_ids_of_find? hr (staff_asleep s r.id)) fun a ha hid => ?_
    rw [lineup_asleep] at ha ⊢
    exact hid ▸ h.leave ha
  | @early r _ _ => exact (lineup_asleep s r.id).symm ▸ h

theorem sound_takeTask (h : s.lineup.Sound []) : s.takeTask.lineup.Sound [] := by
  rw [takeTask]
  split
  · exact h
  · split
    · exact h
    · rename_i r p hp
      refine sound_look ?_ _
      rw [lineup_wakeHead]
      obtain ⟨t, later, hwaiting, rfl, rfl⟩ := Pool.start?_eq_some_iff.1 hp
      have hbegin := h.begin hwaiting
      simpa [lineup, Run.stand, spend] using hbegin

theorem sound_goToQueue (h : s.lineup.Sound []) : s.goToQueue.lineup.Sound [] := by
  rw [goToQueue]
  split
  · exact sound_takeTask h
  · exact sound_takeTask (s := { s.spend with headAtQueue := true }) h

theorem sound_work {s' : CacheSystem} (h : s.lineup.Sound []) (hs : s.Work s') :
    s'.lineup.Sound [] := by
  cases hs with
  | @serve turn rest hready =>
    cases turn with
    | arrive => exact (lineup_rejoin _).symm ▸ h
    | head =>
      exact sound_goToQueue
        (s := { s with ready := rest, left := turnLength, headReady := false }) h
    | again => exact sound_takeTask (s := { s with ready := rest, headReady := false }) h
    | resume n => exact sound_look (s := { s with ready := rest, left := turnLength }) h n
  | turnBack hready => exact h
  | tick time => exact h
  | fire => exact (lineup_fire s).symm ▸ h

theorem sound_act {tasks : Task → Prop} (htasks : ∀ t, tasks t → t.job.Climbs [])
    {s' : CacheSystem} (h : s.lineup.Sound []) (hs : s.Act tasks s') : s'.lineup.Sound [] := by
  cases hs with
  | work hs => exact sound_work h hs
  | @submit t ht =>
    rw [submit]
    split
    · exact h
    · rename_i p hp
      obtain ⟨-, rfl⟩ := Pool.submit?_eq_some_iff.1 hp
      rw [lineup_wakeHead]
      refine { h with waiting := fun t' ht' => ?_ }
      rcases List.mem_append.1 ht' with ht' | ht'
      · exact h.waiting t' ht'
      · exact htasks t' (List.mem_singleton.1 ht' ▸ ht)
  | openGate name =>
    rw [openGate]
    split
    · exact h
    · rename_i gate n hsome
      have hmem := List.mem_of_find?_eq_some hsome
      obtain rfl : gate = name := by simpa using List.find?_some hsome
      obtain ⟨a, ha, rfl, hwait⟩ := h.gated _ hmem
      rw [lineup_release]
      exact h.pass ha hwait
  | count c ns => exact h
  | probe p => exact h

end Sound

variable {s : CacheSystem}

theorem Reached.sound {capacity workers queue timeout : ℕ} {tasks : Task → Prop}
    (htasks : ∀ t, tasks t → t.job.Climbs []) (h : s.Reached capacity workers queue timeout tasks) :
    s.lineup.Sound [] := by
  induction h with
  | refl =>
    refine ⟨?_, ?_, .nil, ?_, .nil, ?_, .nil, ?_, ?_, .nil⟩ <;>
      simp [lineup, CacheSystem.start, Pool.empty]
  | tail _ hs ih => exact sound_act htasks ih hs

/-! ## Who waits for whom -/

/-- Whether the run of one id waits for a stripe that the run of another one holds. -/
def WaitsFor (s : CacheSystem) (n m : ℕ) : Prop :=
  ∃ i, (∃ r ∈ s.pool.running, r.id = n ∧ r.wait = .stripe i) ∧
    ∃ r ∈ s.pool.running, r.id = m ∧ i ∈ r.held

section Order
variable {r q : Run} {i : ℕ}

/-- A run waits for a stripe that exists and is above all that it holds, and that
somebody holds. -/
theorem lt_of_waits (h : s.lineup.Sound []) (hr : r ∈ s.pool.running) (hwait : r.wait = .stripe i) :
    i < stripeCount ∧ (∀ j ∈ r.held, j < i) ∧ ∃ q ∈ s.pool.running, i ∈ q.held := by
  have hclimbs := h.climbs r.stand (mem_stands hr)
  rw [show r.stand.todo = .lock i r.rest by rw [Stand.todo, Run.stand, hwait]] at hclimbs
  have hline : (i, r.stand.id) ∈ s.lineup.line := (h.lined_iff (mem_stands hr)).2 hwait
  obtain ⟨a, ha, hi⟩ := List.mem_flatMap.1 (h.held _ hline)
  obtain ⟨q, hq, rfl⟩ := List.mem_map.1 ha
  exact ⟨hclimbs.1, hclimbs.2.1, q, hq, hi⟩

/-- The runs of one id are one run. -/
theorem stand_eq_of_id (h : s.lineup.Sound []) (hr : r ∈ s.pool.running)
    (hq : q ∈ s.pool.running) (hid : r.id = q.id) : r.stand = q.stand :=
  List.inj_on_of_nodup_map h.ids (mem_stands hr) (mem_stands hq) hid

/-- No two runs hold the same stripe. -/
theorem id_eq_of_held (h : s.lineup.Sound []) (hr : r ∈ s.pool.running)
    (hq : q ∈ s.pool.running) (hi : i ∈ r.held) (hi' : i ∈ q.held) : r.id = q.id := by
  have hdisjoint := (List.nodup_flatMap.1 h.nodup).2
  by_contra hne
  have hstand : r.stand ≠ q.stand := fun heq => hne (congrArg Stand.id heq)
  have hsymm : Std.Symm (Function.onFun List.Disjoint fun a : Stand => a.held) :=
    ⟨fun _ _ h => List.Disjoint.symm h⟩
  exact hdisjoint.forall (mem_stands hr) (mem_stands hq) hstand hi hi'

theorem not_cycle (h : s.lineup.Sound []) (n : ℕ) : ¬ Relation.TransGen s.WaitsFor n n := by
  refine not_cycle_of_lt ?_ n
  rintro m i j ⟨r, hr, rfl, hwait⟩ ⟨q, hq, hid, hj⟩
  have hheld : q.held = r.held := congrArg Stand.held (stand_eq_of_id h hq hr hid)
  exact (lt_of_waits h hr hwait).2.1 j (hheld ▸ hj)

/-- The run with the highest stripe waits for none. -/
theorem exists_not_waiting (h : s.lineup.Sound []) (hne : s.pool.running ≠ []) :
    ∃ r ∈ s.pool.running, ∀ i, r.wait ≠ .stripe i := by
  obtain ⟨before, r, behind, hrunning, htop⟩ := exists_foremost (fun r : Run => r.held) hne
  have hr : r ∈ s.pool.running := hrunning ▸ List.mem_append_right _ List.mem_cons_self
  refine ⟨r, hr, fun i hwait => ?_⟩
  obtain ⟨-, habove, q, hq, hi⟩ := lt_of_waits h hr hwait
  obtain ⟨j, hj, hle⟩ := htop i (List.mem_flatMap.2 ⟨q, hq, hi⟩)
  exact absurd hle (habove j hj).not_ge

end Order
end CacheSystem

end FilmCatalog
