import FilmCatalog.Proofs.Cache.Stripes

/-!
# What is left of jobs

Whatever happens in a system, what is left of its jobs comes from the jobs that were
submitted to it. So a property that a job hands down to whatever follows one of its
calls (`Job.Inherited`) holds of all that is left, if it holds of every job that was
submitted.

Key definitions: `Job.Inherited`, `Lineup.All`, `CacheSystem.Halt.Inherits`.
Key theorems: `CacheSystem.inherited_perform`, `CacheSystem.all_act`,
`CacheSystem.Reached.all`.
-/

namespace FilmCatalog

/-- Whether a property of jobs holds of what follows each call, whatever the answer. -/
structure Job.Inherited (J : Job → Prop) : Prop where
  lock : ∀ {i next}, J (.lock i next) → J next
  get : ∀ {key next}, J (.get key next) → ∀ answer, J (next answer)
  set : ∀ {key value ttl next}, J (.set key value ttl next) → ∀ answer, J (next answer)
  delete : ∀ {key next}, J (.delete key next) → ∀ answer, J (next answer)
  count : ∀ {c ns next}, J (.count c ns next) → J next
  sleep : ∀ {ms next}, J (.sleep ms next) → J next
  gate : ∀ {name next}, J (.gate name next) → J next

namespace Lineup

variable {J : Job → Prop} {v : Lineup} {id : ℕ} {f : Stand → Stand}

/-- Whether a property holds of all jobs, of those that wait and of what is left of others. -/
structure All (J : Job → Prop) (v : Lineup) : Prop where
  waiting : ∀ t ∈ v.waiting, J t.job
  stands : ∀ a ∈ v.stands, J a.rest

theorem All.change (h : v.All J) (hf : ∀ a ∈ v.stands, J (f a).rest) : (v.change id f).All J where
  waiting := h.waiting
  stands b hb := by
    obtain ⟨a, ha, rfl⟩ := List.mem_map.1 hb
    split
    · exact hf a ha
    · exact h.stands a ha

end Lineup

namespace CacheSystem

variable {J : Job → Prop} {s : CacheSystem} {id : ℕ}

theorem all_passOn (h : s.lineup.All J) (i : ℕ) : (s.passOn i).lineup.All J := by
  rw [passOn]
  split
  · exact h
  · rename_i n _
    have hline : Lineup.All J (lineup { s with stripeLine := s.stripeLine.erase (i, n) }) :=
      ⟨h.waiting, h.stands⟩
    have hhold : Lineup.All J ((lineup { s with stripeLine := s.stripeLine.erase (i, n) }).change n
        fun a => { a with held := a.held ++ [i] }) := hline.change hline.stands
    rw [lineup_release, lineup_hold]
    exact hhold.change hhold.stands

theorem all_passOn_all (h : s.lineup.All J) (held : List ℕ) :
    (held.foldl passOn s).lineup.All J := by
  induction held generalizing s with
  | nil => exact h
  | cons i rest ih => exact ih (all_passOn h i)

theorem all_endRun (h : s.lineup.All J) (id : ℕ) : (s.endRun id).lineup.All J := by
  rw [endRun, lineup_rejoin]
  refine all_passOn_all ?_ _
  refine ⟨h.waiting, fun a ha => ?_⟩
  obtain ⟨r, hr, rfl⟩ := List.mem_map.1 ha
  exact h.stands r.stand (mem_stands (List.mem_of_mem_filter hr))

theorem all_cutOff (h : s.lineup.All J) (r : Run) : (s.cutOff r).lineup.All J :=
  all_endRun (s := s.count .timeout r.task.ns) h r.id

theorem all_suspend (h : s.lineup.All J) (r : Run) {rest : Job} (hrest : J rest) (paid : Bool)
    (on : Wait) : (s.suspend r rest paid on).lineup.All J := by
  by_cases hlate : r.deadline ≤ s.now
  · rw [suspend, if_pos hlate]
    exact all_cutOff h r
  · rw [lineup_suspend hlate]
    exact h.change fun _ _ => hrest

/-- Whether a halted run leaves nothing of its job or something with a property. -/
def Halt.Inherits (J : Job → Prop) : Halt → Prop
  | .waits rest _ _ => J rest
  | _ => True

/-- A run goes on: what is left of all jobs keeps the property, and so does what is left of
this one when it has to wait. -/
theorem inherited_perform (hJ : Job.Inherited J) (id : ℕ) {job : Job} (hjob : J job) (paid : Bool)
    (h : s.lineup.All J) :
    (perform id job paid s).2.lineup.All J ∧ (perform id job paid s).1.Inherits J := by
  induction job generalizing paid s with
  | done => exact ⟨h, trivial⟩
  | panic => exact ⟨h, trivial⟩
  | lock i next ih =>
    rw [perform]
    split_ifs
    · exact ⟨h, hjob⟩
    · refine ih (hJ.lock hjob) false ?_
      rw [lineup_hold]
      exact h.change h.stands
    · exact ⟨⟨h.waiting, h.stands⟩, hJ.lock hjob⟩
  | get key next ih =>
    rw [perform]
    split_ifs
    · exact ih _ (hJ.get hjob _) false h
    · exact ⟨h, hjob⟩
  | set key value ttl next ih =>
    rw [perform]
    split_ifs
    · split
      · exact ih _ (hJ.set hjob _) false h
      · exact ⟨h, trivial⟩
    · exact ⟨h, hjob⟩
  | delete key next ih =>
    rw [perform]
    split_ifs
    · exact ih _ (hJ.delete hjob _) false h
    · exact ⟨h, hjob⟩
  | count c ns next ih => exact ih (hJ.count hjob) false h
  | sleep ms next ih =>
    rw [perform]
    split_ifs
    · exact ⟨h, hJ.sleep hjob⟩
    · exact ⟨h, hjob⟩
    · exact ih (hJ.sleep hjob) false h
  | gate name next ih =>
    rw [perform]
    split_ifs
    · exact ⟨h, hjob⟩
    · exact ih (hJ.gate hjob) false h
    · exact ⟨⟨h.waiting, h.stands⟩, hJ.gate hjob⟩

theorem all_look (hJ : Job.Inherited J) (h : s.lineup.All J) (id : ℕ) :
    (s.look id).lineup.All J := by
  have hgoes : ∀ {r}, s.pool.find? r.id = some r →
      (s.goOn r).2.lineup.All J ∧ (s.goOn r).1.Inherits J := fun {r} hr =>
    inherited_perform hJ r.id (h.stands r.stand (mem_stands (Pool.mem_of_find? hr))) r.paid
      ((lineup_resumed s r).symm ▸ h)
  have hlook := s.look_cases id
  generalize s.look id = s' at hlook ⊢
  cases hlook with
  | gone => exact h
  | @ended r finished hr _ _ => exact all_endRun (hgoes hr).1 r.id
  | @halted r rest paid on hr _ hhalt =>
    obtain ⟨hall, hinherits⟩ := hgoes hr
    rw [hhalt] at hinherits
    exact all_suspend hall r hinherits _ _
  | @late r _ _ => exact all_cutOff ((lineup_asleep s r.id).symm ▸ h) r
  | @early r _ _ => exact (lineup_asleep s r.id).symm ▸ h

theorem all_takeTask (hJ : Job.Inherited J) (h : s.lineup.All J) : s.takeTask.lineup.All J := by
  rw [takeTask]
  split
  · exact h
  · split
    · exact h
    · rename_i r p hp
      refine all_look hJ ?_ _
      rw [lineup_wakeHead]
      obtain ⟨t, later, hwaiting, rfl, rfl⟩ := Pool.start?_eq_some_iff.1 hp
      have hmem : ∀ t' ∈ t :: later, J t'.job := hwaiting ▸ h.waiting
      refine ⟨fun t' ht' => hmem t' (List.mem_cons_of_mem _ ht'), fun a ha => ?_⟩
      obtain ⟨r, hr, rfl⟩ := List.mem_map.1 ha
      rcases List.mem_append.1 hr with hr | hr
      · exact h.stands r.stand (mem_stands hr)
      · obtain rfl := List.mem_singleton.1 hr
        exact hmem t List.mem_cons_self

theorem all_goToQueue (hJ : Job.Inherited J) (h : s.lineup.All J) : s.goToQueue.lineup.All J := by
  rw [goToQueue]
  split
  · exact all_takeTask hJ h
  · exact all_takeTask (s := { s.spend with headAtQueue := true }) hJ h

theorem all_work (hJ : Job.Inherited J) {s' : CacheSystem} (h : s.lineup.All J) (hs : s.Work s') :
    s'.lineup.All J := by
  cases hs with
  | @serve turn rest hready =>
    cases turn with
    | arrive => exact (lineup_rejoin _).symm ▸ h
    | head =>
      exact all_goToQueue
        (s := { s with ready := rest, left := turnLength, headReady := false }) hJ h
    | again => exact all_takeTask (s := { s with ready := rest, headReady := false }) hJ h
    | resume n => exact all_look (s := { s with ready := rest, left := turnLength }) hJ h n
  | turnBack hready => exact h
  | tick time => exact h
  | fire => exact (lineup_fire s).symm ▸ h

theorem all_act (hJ : Job.Inherited J) {tasks : Task → Prop} (htasks : ∀ t, tasks t → J t.job)
    {s' : CacheSystem} (h : s.lineup.All J) (hs : s.Act tasks s') : s'.lineup.All J := by
  cases hs with
  | work hs => exact all_work hJ h hs
  | @submit t ht =>
    rw [submit]
    split
    · exact h
    · rename_i p hp
      obtain ⟨-, rfl⟩ := Pool.submit?_eq_some_iff.1 hp
      rw [lineup_wakeHead]
      refine ⟨fun t' ht' => ?_, h.stands⟩
      rcases List.mem_append.1 ht' with ht' | ht'
      · exact h.waiting t' ht'
      · exact htasks t' (List.mem_singleton.1 ht' ▸ ht)
  | openGate name =>
    rw [openGate]
    split
    · exact h
    · rw [lineup_release]
      exact Lineup.All.change ⟨h.waiting, h.stands⟩ h.stands
  | count c ns => exact h
  | probe p => exact h

/-- What holds of every submitted job holds of what is left of the jobs of a system. -/
theorem Reached.all (hJ : Job.Inherited J) {capacity workers queue timeout : ℕ}
    {tasks : Task → Prop} (htasks : ∀ t, tasks t → J t.job)
    (h : s.Reached capacity workers queue timeout tasks) : s.lineup.All J := by
  induction h with
  | refl =>
    refine ⟨?_, ?_⟩ <;> simp [lineup, CacheSystem.start, Pool.empty]
  | tail _ hs ih => exact all_act hJ htasks ih hs

end CacheSystem
end FilmCatalog
