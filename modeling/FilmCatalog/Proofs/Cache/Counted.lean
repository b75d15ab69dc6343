import FilmCatalog.Proofs.Cache.Counting
import FilmCatalog.Proofs.Cache.Overdue

/-!
# What executed systems count

Whatever the foreground asks of the layer of an executed system, and whatever is
done in the background, some tally tells what has happened: it has an inquiry for
each call of the foreground and a chore for each task that was started, the open
ones for those that run, and the same was heard of the backend and counted
(`CacheSystem.Used.tallied`). What a system does with a job between two waits a
chore may do (`CacheSystem.halts_perform`), and a call of the foreground is an
inquiry that no other interrupts (`CacheSystem.Carries.tallied`).

Key definitions: `CacheSystem.Docket`, `Tally.Mirrors`, `CacheSystem.Tallied`,
`CacheSystem.Halts`, `CacheSystem.Carries`, `CacheSystem.Used`.
Key theorems: `CacheSystem.halts_perform`, `CacheSystem.Tallied.work`, `CacheSystem.plays_on`,
`CacheSystem.Used.tallied`, `counters_add_up`.
-/

namespace FilmCatalog

/-- A run as far as a tally goes. -/
structure Stint where
  id : ℕ
  task : Task
  deadline : ℕ
  rest : Job

def Run.stint (r : Run) : Stint := ⟨r.id, r.task, r.deadline, r.rest⟩

/-- What a backend records of a call that is answered, except for a change that is made. -/
def Heard.call? : Heard → Option CacheCall
  | found key (.ok value) => some (.get key value.isSome)
  | found key (.error _) => some (.failed .get key)
  | wrote key (.error _) => some (.failed .set key)
  | deleted key (.ok _) => some (.delete key)
  | deleted key (.error _) => some (.failed .delete key)
  | _ => none

/-- The latest calls first, without the changes that were made. -/
def Probe.answered (p : Probe) : List CacheCall :=
  p.calls.filter fun
    | .set _ _ _ => false
    | _ => true

section Answered
variable (p : Probe) (key : String)

theorem answered_get :
    (p.get key).2.answered =
      [Heard.found key (p.get key).1].filterMap Heard.call? ++ p.answered := by
  rw [Probe.get]
  split_ifs
  · simp [Probe.answered, Probe.record, Heard.call?]
  · simp [Probe.answered, Probe.record, Heard.call?, Probe.rawGet]

theorem answered_delete :
    (p.delete key).2.answered =
      [Heard.deleted key (p.delete key).1].filterMap Heard.call? ++ p.answered := by
  rw [Probe.delete]
  split_ifs
  · simp [Probe.answered, Probe.record, Heard.call?]
  · simp [Probe.answered, Probe.record, Heard.call?]

theorem answered_rawSet {q : Probe} {value : ByteArray} {ttl : ℕ}
    (h : p.rawSet? key value ttl = some q) : q.answered = p.answered := by
  rw [Probe.rawSet?, Option.map_eq_some_iff] at h
  obtain ⟨store, -, rfl⟩ := h
  rw [Probe.answered, Probe.answered]

/-- A change that gets no answer is recorded as if it were made. -/
theorem answered_set (value : ByteArray) (ttl : ℕ) :
    (p.set key value ttl).2.answered =
      ((p.set key value ttl).1.map (Heard.wrote key)).toList.filterMap Heard.call? ++
        p.answered := by
  have hrecord : (p.record (.set key value ttl)).answered = p.answered := by
    simp [Probe.answered, Probe.record]
  by_cases hfails : p.fails .set key = true
  · rw [Probe.set, if_pos hfails]
    simp [Probe.answered, Probe.record, Heard.call?]
  · rw [Probe.set, if_neg hfails]
    cases hset : (p.record (.set key value ttl)).rawSet? key value ttl with
    | none =>
      simp only [hset]
      exact hrecord
    | some q =>
      simp only [hset]
      exact (answered_rawSet _ key hset).trans hrecord

end Answered

namespace CacheSystem

/-! ## The docket of a system -/

/-- What a tally is about. -/
@[ext]
structure Docket where
  now : ℕ
  timeout : ℕ
  waiting : List Task
  started : ℕ
  stints : List Stint
  calls : List CacheCall
  counted : List Raise

namespace Docket

/-- The docket when a run is left with something to do. -/
def onto (d : Docket) (id : ℕ) (rest : Job) : Docket :=
  { d with stints := d.stints.map fun a => if a.id = id then { a with rest := rest } else a }

/-- The docket without a run. -/
def leave (d : Docket) (id : ℕ) : Docket := { d with stints := d.stints.filter fun a => a.id != id }

end Docket

/-- The docket of a system. -/
def docket (s : CacheSystem) : Docket where
  now := s.now
  timeout := s.pool.timeout
  waiting := s.pool.waiting
  started := s.pool.started
  stints := s.pool.running.map Run.stint
  calls := s.probe.answered
  counted := s.counted

section Docket
variable (s : CacheSystem) (id : ℕ)

/-- A run may change in whatever is not part of its stint. -/
theorem docket_modify {f : Run → Run} (hf : ∀ r, (f r).stint = r.stint) :
    docket { s with pool := s.pool.modify id f } = s.docket :=
  Docket.ext rfl rfl rfl rfl (s.pool.map_modify id hf) rfl rfl

theorem docket_asleep : (s.asleep id).docket = s.docket := docket_modify s id fun _ => rfl

theorem docket_modify_rest {f : Run → Run} (rest : Job)
    (hf : ∀ r, (f r).stint = { r.stint with rest := rest }) :
    docket { s with pool := s.pool.modify id f } = s.docket.onto id rest :=
  Docket.ext rfl rfl rfl rfl (s.pool.map_modify_of_key id (fun _ => rfl) hf) rfl rfl

theorem docket_finish : docket { s with pool := s.pool.finish id } = s.docket.leave id :=
  Docket.ext rfl rfl rfl rfl (s.pool.map_finish id fun _ => rfl) rfl rfl

theorem docket_probe {p : Probe} {calls : List CacheCall} (hp : p.answered = calls) :
    docket { s with probe := p } = { s.docket with calls := calls } :=
  Docket.ext rfl rfl rfl rfl rfl hp rfl

/-- The docket does not see who waits for what. -/
theorem docket_blind : Blind docket where
  modify s id _ hf := docket_modify s id fun r =>
    congrArg (fun p => (⟨p.1, p.2.1, p.2.2.1, p.2.2.2.1⟩ : Stint)) (hf r)
  turn _ _ := rfl
  lines _ _ _ _ _ := rfl

theorem docket_wakeHead : s.wakeHead.docket = s.docket := by
  rw [wakeHead]
  split <;> rfl

theorem docket_rejoin : s.rejoin.docket = s.docket := by
  rw [rejoin]
  split_ifs <;> rfl

theorem docket_endRun : (s.endRun id).docket = s.docket.leave id := by
  rw [endRun, docket_rejoin, docket_blind.passOn_all]
  exact docket_finish s id

theorem docket_cutOff (r : Run) :
    (s.cutOff r).docket =
      Docket.leave { s.docket with counted := r.task.onEnd .cutOff ++ s.counted } r.id :=
  docket_endRun (s.count .timeout r.task.ns) r.id

/-- A run that is not cut off is left with what it has to do. -/
theorem docket_suspend {r : Run} (hlate : ¬ r.deadline ≤ s.now) (rest : Job) (paid : Bool)
    (on : Wait) : (s.suspend r rest paid on).docket = s.docket.onto r.id rest := by
  have hset : docket { s with pool := s.pool.modify r.id fun r =>
      { r with rest := rest, paid := paid, wait := on } } = s.docket.onto r.id rest :=
    docket_modify_rest s r.id rest fun _ => rfl
  rw [suspend, if_neg hlate]
  cases on with
  | nothing =>
    exact (docket_modify (f := fun r => { r with woken := true }) _ r.id fun _ => rfl).trans hset
  | _ => exact hset

end Docket

end CacheSystem

/-! ## Tallies of a system -/

/-- Whether a chore is what a run is at. -/
structure Chore.Is (c : Chore) (a : Stint) : Prop where
  task : c.task = a.task
  deadline : c.deadline = a.deadline
  rest : c.rest = a.rest
  running : c.ending = none

/-- Whether a tally tells what has happened in a system: the chores by their numbers are the
runs by their ids. -/
structure Tally.Mirrors (y : Tally) (d : CacheSystem.Docket) : Prop where
  now : y.now = d.now
  timeout : y.timeout = d.timeout
  waiting : y.waiting = d.waiting
  started : y.chores.length = d.started
  heard : y.heard.filterMap Heard.call? = d.calls
  counted : y.counted = d.counted
  /-- What runs has a chore, and does not stop before it counts. -/
  stints : ∀ a ∈ d.stints, (∃ c, y.chores[a.id]? = some c ∧ c.Is a) ∧ ¬ a.rest.Counts
  running : ∀ i c, y.chores[i]? = some c → c.ending = none → ∃ a ∈ d.stints, a.id = i

namespace Tally.Mirrors

variable {y : Tally} {d : CacheSystem.Docket} {id : ℕ} {c c' : Chore}

/-- A chore has come to a wait. -/
theorem onto (h : y.Mirrors d) (hc : y.chores[id]? = some c) (hopen : c.ending = none)
    (htask : c'.task = c.task) (hdeadline : c'.deadline = c.deadline) (hopen' : c'.ending = none)
    (hstop : ¬ c'.rest.Counts) (heard : List Heard) (counted : List Raise) :
    Mirrors { y with chores := y.chores.set id c', heard := heard, counted := counted }
      (CacheSystem.Docket.onto
        { d with calls := heard.filterMap Heard.call?, counted := counted } id c'.rest) where
  now := h.now
  timeout := h.timeout
  waiting := h.waiting
  started := List.length_set.trans h.started
  heard := rfl
  counted := rfl
  stints := by
    intro b hb
    obtain ⟨a, ha, rfl⟩ := List.mem_map.1 hb
    obtain ⟨⟨c₀, hc₀, hsame⟩, hstop₀⟩ := h.stints a ha
    by_cases hid : a.id = id
    · simp only [if_pos hid]
      subst hid
      obtain rfl : c₀ = c := Option.some.inj (hc₀.symm.trans hc)
      refine ⟨⟨c', ?_, htask.trans hsame.task, hdeadline.trans hsame.deadline, rfl, hopen'⟩, hstop⟩
      exact List.getElem?_set_self (List.getElem?_eq_some_iff.1 hc).1
    · simp only [if_neg hid]
      exact ⟨⟨c₀, (List.getElem?_set_ne (Ne.symm hid)).trans hc₀, hsame⟩, hstop₀⟩
  running := by
    intro i b hb hnone
    have hbefore : ∃ b, y.chores[i]? = some b ∧ b.ending = none := by
      by_cases hid : id = i
      · exact ⟨c, hid ▸ hc, hopen⟩
      · exact ⟨b, (List.getElem?_set_ne hid).symm.trans hb, hnone⟩
    obtain ⟨b, hb, hnone⟩ := hbefore
    obtain ⟨a, ha, rfl⟩ := h.running i b hb hnone
    refine ⟨_, List.mem_map_of_mem ha, ?_⟩
    split <;> rfl

/-- A chore has ended. -/
theorem leave (h : y.Mirrors d) (hc : y.chores[id]? = some c) (hclosed : c'.ending ≠ none)
    (heard : List Heard) (counted : List Raise) :
    Mirrors { y with chores := y.chores.set id c', heard := heard, counted := counted }
      (CacheSystem.Docket.leave
        { d with calls := heard.filterMap Heard.call?, counted := counted } id) where
  now := h.now
  timeout := h.timeout
  waiting := h.waiting
  started := List.length_set.trans h.started
  heard := rfl
  counted := rfl
  stints := by
    intro a ha
    obtain ⟨ha, hid⟩ := List.mem_filter.1 ha
    obtain ⟨⟨c₀, hc₀, hsame⟩, hstop⟩ := h.stints a ha
    exact ⟨⟨c₀, (List.getElem?_set_ne (Ne.symm (bne_iff_ne.1 hid))).trans hc₀, hsame⟩, hstop⟩
  running := by
    intro i b hb hnone
    by_cases hid : id = i
    · subst hid
      rw [List.getElem?_set_self (List.getElem?_eq_some_iff.1 hc).1] at hb
      obtain rfl := Option.some.inj hb
      exact absurd hnone hclosed
    · rw [List.getElem?_set_ne hid] at hb
      obtain ⟨a, ha, rfl⟩ := h.running i b hb hnone
      exact ⟨a, List.mem_filter.2 ⟨ha, by simpa using Ne.symm hid⟩, rfl⟩

/-- A chore has begun. -/
theorem begin (h : y.Mirrors d) {t : Task} (later : List Task) (hstop : ¬ t.job.Counts) :
    Mirrors { y with waiting := later, chores := y.chores ++ [.begin t (y.now + y.timeout)] }
      { d with
        waiting := later
        started := d.started + 1
        stints := d.stints ++ [⟨d.started, t, d.now + d.timeout, t.job⟩] } where
  now := h.now
  timeout := h.timeout
  waiting := rfl
  started := by rw [List.length_append, h.started]; rfl
  heard := h.heard
  counted := h.counted
  stints := by
    intro a ha
    rcases List.mem_append.1 ha with ha | ha
    · obtain ⟨⟨c, hc, hsame⟩, hrest⟩ := h.stints a ha
      exact ⟨⟨c, (List.getElem?_append_left (List.getElem?_eq_some_iff.1 hc).1).trans hc, hsame⟩,
        hrest⟩
    · obtain rfl := List.mem_singleton.1 ha
      refine ⟨⟨.begin t (y.now + y.timeout), ?_, rfl, ?_, rfl, rfl⟩, hstop⟩
      · rw [← h.started]
        exact List.getElem?_concat_length
      · rw [← h.now, ← h.timeout]
        rfl
  running := by
    intro i c hc hnone
    by_cases hi : i < y.chores.length
    · rw [List.getElem?_append_left hi] at hc
      obtain ⟨a, ha, rfl⟩ := h.running i c hc hnone
      exact ⟨a, List.mem_append_left _ ha, rfl⟩
    · have hlt := (List.getElem?_eq_some_iff.1 hc).1
      rw [List.length_append, List.length_singleton] at hlt
      exact ⟨_, List.mem_append_right _ (List.mem_singleton_self _), by
        show d.started = i
        rw [← h.started]
        omega⟩

end Tally.Mirrors

namespace CacheSystem

/-- Whether a system is what some tally of some inquiries tells. -/
def Tallied (timeout : ℕ) (asked : List Inquiry) (s : CacheSystem) : Prop :=
  ∃ y : Tally, y.Reachable timeout ∧ y.inquiries = asked ∧ y.Mirrors s.docket

/-! ## Jobs as they are executed -/

/-- What a chore may have left when a run has halted. -/
def Halt.Rests : Halt → Job → Prop
  | .ended, rest => rest = .done
  | .panicked, rest => ¬ rest.Counts
  | .waits left _ _, rest => left = rest ∧ ¬ rest.Counts

/-- Whether a chore of a tally is what a run is about to go on with. -/
structure Follows (timeout n : ℕ) (y : Tally) (c : Chore) (job : Job) (s : CacheSystem) : Prop where
  reachable : y.Reachable timeout
  chore : y.chores[n]? = some c
  running : c.ending = none
  rest : c.rest = job
  heard : y.heard.filterMap Heard.call? = s.probe.answered
  counted : y.counted = s.counted

/-- Whether a chore of a tally can come to where a run has halted. -/
def Halts (timeout n : ℕ) (y : Tally) (c : Chore) (s : CacheSystem) (halted : Halt × CacheSystem) :
    Prop :=
  ∃ c' heard counted,
    Tally.Reachable timeout
        { y with chores := y.chores.set n c', heard := heard, counted := counted } ∧
      halted.2.docket =
        { s.docket with calls := heard.filterMap Heard.call?, counted := counted } ∧
      c'.task = c.task ∧ c'.deadline = c.deadline ∧ c'.ending = none ∧ halted.1.Rests c'.rest

section Perform
variable {timeout n : ℕ} {y : Tally} {c : Chore} {job next : Job} {s : CacheSystem}
  {halted : Halt × CacheSystem}

theorem Follows.pays (h : Follows timeout n y c job s) :
    ∃ owed, job.Pays owed c.heard c.raised := by
  obtain ⟨owed, -, hsettles⟩ := h.reachable.sound.chores c (List.mem_of_getElem? h.chore)
  exact ⟨owed, h.rest ▸ hsettles.pays h.running⟩

/-- It halts where it is. -/
theorem Follows.halts (h : Follows timeout n y c job s) (hdocket : halted.2.docket = s.docket)
    (hrests : halted.1.Rests job) : Halts timeout n y c s halted := by
  refine ⟨c, y.heard, y.counted, ?_, ?_, rfl, rfl, h.running, h.rest ▸ hrests⟩
  · rw [set_eq_self h.chore]
    exact h.reachable
  · rw [hdocket, h.heard, h.counted]
    rfl

/-- It makes a step and goes on. -/
theorem Follows.step (h : Follows timeout n y c job s) (s' : CacheSystem) {heard : List Heard}
    {raised : List Raise} (hs : job.Step heard raised next)
    (hdocket : s'.docket = { s.docket with
      calls := heard.filterMap Heard.call? ++ s.probe.answered
      counted := raised ++ s.counted })
    (hnext : ∀ y c, Follows timeout n y c next s' → Halts timeout n y c s' halted) :
    Halts timeout n y c s halted := by
  have hlt := (List.getElem?_eq_some_iff.1 h.chore).1
  have hfollows : Follows timeout n
      { y with
        chores := y.chores.set n (c.after heard raised next)
        heard := heard ++ y.heard
        counted := raised ++ y.counted } (c.after heard raised next) next s' :=
    { reachable := h.reachable.tail (.work h.chore h.running (h.rest.symm ▸ hs))
      chore := List.getElem?_set_self hlt
      running := h.running
      rest := rfl
      heard := by
        rw [List.filterMap_append, h.heard]
        exact (congrArg Docket.calls hdocket).symm
      counted := by
        rw [h.counted]
        exact (congrArg Docket.counted hdocket).symm }
  obtain ⟨c', heard', counted, hreach, hlast, htask, hdeadline, hopen, hrests⟩ := hnext _ _ hfollows
  refine ⟨c', heard', counted, ?_, ?_, htask, hdeadline, hopen, hrests⟩
  · rwa [List.set_set] at hreach
  · rw [hlast, hdocket]

/-- Whatever a system does with a job until it halts, a chore may do. -/
theorem halts_perform (job : Job) (paid : Bool) (h : Follows timeout n y c job s) :
    Halts timeout n y c s (perform n job paid s) := by
  induction job generalizing paid y c s with
  | done => exact h.halts rfl rfl
  | panic => exact h.halts rfl id
  | lock i next ih =>
    rw [perform]
    obtain ⟨owed, -, hstop, -⟩ := h.pays
    split_ifs
    · exact h.halts rfl ⟨rfl, id⟩
    · exact h.step _ .lock (docket_blind.hold s.spend n i) fun _ _ => ih false
    · exact h.step s .lock rfl fun _ _ hnext => hnext.halts rfl ⟨rfl, hstop⟩
  | get key next ih =>
    rw [perform]
    split_ifs
    · exact h.step { s with probe := (s.probe.get key).2 } (.get _)
        (docket_probe s (answered_get s.probe key)) fun _ _ => ih _ false
    · exact h.halts rfl ⟨rfl, id⟩
  | set key value ttl next ih =>
    rw [perform]
    split_ifs
    · have hanswered := answered_set s.probe key value ttl
      split
      · rename_i probe hset
        rw [hset] at hanswered
        exact h.step { s with probe := probe } (.set _) (docket_probe s hanswered)
          fun _ _ => ih _ false
      · rename_i probe hset
        rw [hset] at hanswered
        exact h.halts (docket_probe s hanswered) id
    · exact h.halts rfl ⟨rfl, id⟩
  | delete key next ih =>
    rw [perform]
    split_ifs
    · exact h.step { s with probe := (s.probe.delete key).2 } (.delete _)
        (docket_probe s (answered_delete s.probe key)) fun _ _ => ih _ false
    · exact h.halts rfl ⟨rfl, id⟩
  | count counter ns next ih => exact h.step (s.count counter ns) .count rfl fun _ _ => ih false
  | sleep ms next ih =>
    rw [perform]
    obtain ⟨owed, -, hstop, -⟩ := h.pays
    split_ifs
    · exact h.step s .sleep rfl fun _ _ hnext => hnext.halts rfl ⟨rfl, hstop⟩
    · exact h.halts rfl ⟨rfl, id⟩
    · exact h.step s.spend .sleep rfl fun _ _ => ih false
  | gate name next ih =>
    rw [perform]
    obtain ⟨owed, -, hstop, -⟩ := h.pays
    split_ifs
    · exact h.halts rfl ⟨rfl, id⟩
    · exact h.step { s.spend with openGates := s.openGates.erase name } .gate rfl
        fun _ _ => ih false
    · exact h.step s .gate rfl fun _ _ hnext => hnext.halts rfl ⟨rfl, hstop⟩

end Perform

/-! ## Background work -/

section Ends
variable {timeout n : ℕ} {y : Tally} {c : Chore} {s s' : CacheSystem} {halted : Halt × CacheSystem}

/-- The chore ends with the run. -/
theorem Halts.ends (h : Halts timeout n y c s halted) (hm : y.Mirrors s.docket)
    (hc : y.chores[n]? = some c) (how : Ending)
    (hend : ∀ c' : Chore, c'.deadline = c.deadline → halted.1.Rests c'.rest →
      c'.MayEnd halted.2.now how)
    (hdocket : s'.docket = Docket.leave
      { halted.2.docket with counted := c.task.onEnd how ++ halted.2.counted } n) :
    Tallied timeout y.inquiries s' := by
  obtain ⟨c', heard, counted, hreach, hlast, htask, hdeadline, hopen, hrests⟩ := h
  have hlt := (List.getElem?_eq_some_iff.1 hc).1
  have hnow : halted.2.now = y.now := (congrArg Docket.now hlast).trans hm.now.symm
  have hcounted : halted.2.counted = counted := congrArg Docket.counted hlast
  have hfinish := hreach.tail
    (.finish how (List.getElem?_set_self hlt) hopen (hnow ▸ hend c' hdeadline hrests))
  refine ⟨_, hfinish, rfl, ?_⟩
  simp only [List.set_set, htask]
  rw [hdocket, hlast, hcounted]
  exact hm.leave hc (Option.some_ne_none how) _ _

/-- The chore is cut off with the run. -/
theorem Halts.cutOff {r : Run} (h : Halts timeout r.id y c s halted) (hm : y.Mirrors s.docket)
    (hc : y.chores[r.id]? = some c) (hr : c.Is r.stint)
    (hstop : ∀ left, halted.1.Rests left → ¬ left.Counts) (hlate : r.deadline ≤ halted.2.now) :
    Tallied timeout y.inquiries (halted.2.cutOff r) := by
  refine h.ends hm hc .cutOff (fun c' hdeadline hrests => ⟨hstop _ hrests, ?_⟩) ?_
  · rw [hdeadline, hr.deadline]
    exact hlate
  · rw [docket_cutOff, hr.task]
    rfl

/-- The chore waits with the run. -/
theorem Halts.stays (h : Halts timeout n y c s halted) (hm : y.Mirrors s.docket)
    (hc : y.chores[n]? = some c) (hopen : c.ending = none) {rest : Job}
    (hrest : ∀ left, halted.1.Rests left → rest = left ∧ ¬ left.Counts)
    (hdocket : s'.docket = halted.2.docket.onto n rest) : Tallied timeout y.inquiries s' := by
  obtain ⟨c', heard, counted, hreach, hlast, htask, hdeadline, hopen', hrests⟩ := h
  obtain ⟨rfl, hstop⟩ := hrest _ hrests
  refine ⟨_, hreach, rfl, ?_⟩
  rw [hdocket, hlast]
  exact hm.onto hc hopen htask hdeadline hopen' hstop heard counted

end Ends

namespace Tallied

variable {timeout : ℕ} {asked : List Inquiry} {s s' : CacheSystem}

theorem of_docket (h : Tallied timeout asked s) (hs : s'.docket = s.docket) :
    Tallied timeout asked s' := by
  obtain ⟨y, hy, hasked, hm⟩ := h
  exact ⟨y, hy, hasked, hs ▸ hm⟩

/-- A run that goes on has a chore, which halts with it. -/
theorem halts_goOn {y : Tally} (hy : y.Reachable timeout) (hm : y.Mirrors s.docket) {r : Run}
    (hr : s.pool.find? r.id = some r) :
    ∃ c, y.chores[r.id]? = some c ∧ c.Is r.stint ∧ y.Mirrors (s.resumed r).docket ∧
      Halts timeout r.id y c (s.resumed r) (s.goOn r) := by
  have hnow : (s.resumed r).docket = s.docket :=
    (resumed_frame (fun _ => rfl) s r).trans (docket_asleep s r.id)
  rw [← hnow] at hm
  have hstint : r.stint ∈ (s.resumed r).docket.stints :=
    hnow ▸ List.mem_map_of_mem (Pool.mem_of_find? hr)
  obtain ⟨⟨c, hc, his⟩, -⟩ := hm.stints r.stint hstint
  exact ⟨c, hc, his, hm,
    halts_perform r.rest r.paid ⟨hy, hc, his.running, his.rest, hm.heard, hm.counted⟩⟩

theorem look (h : Tallied timeout asked s) (id : ℕ) : Tallied timeout asked (s.look id) := by
  obtain ⟨y, hy, rfl, hm⟩ := h
  have hlook := s.look_cases id
  generalize s.look id = s' at hlook ⊢
  cases hlook with
  | gone => exact ⟨y, hy, rfl, hm⟩
  | @ended r finished hr _ hhalt =>
    obtain ⟨c, hc, -, hm, hhalts⟩ := halts_goOn hy hm hr
    rcases hhalt with hhalt | hhalt
    · exact hhalts.ends hm hc .finished (fun _ _ hrests => by rwa [hhalt] at hrests)
        (docket_endRun _ r.id)
    · exact hhalts.ends hm hc .panicked (fun _ _ hrests => by rwa [hhalt] at hrests)
        (docket_endRun _ r.id)
  | @halted r rest paid on hr _ hhalt =>
    obtain ⟨c, hc, his, hm, hhalts⟩ := halts_goOn hy hm hr
    have hrest : ∀ left, (s.goOn r).1.Rests left → rest = left ∧ ¬ left.Counts := by
      rw [hhalt]
      exact fun _ => id
    by_cases hlate : r.deadline ≤ (s.goOn r).2.now
    · rw [suspend, if_pos hlate]
      exact hhalts.cutOff hm hc his (fun _ hrests => (hrest _ hrests).2) hlate
    · exact hhalts.stays hm hc his.running hrest (docket_suspend _ hlate rest paid on)
  | @late r hr hlate =>
    obtain ⟨⟨c, hc, his⟩, hstop⟩ :=
      hm.stints r.stint (List.mem_map_of_mem (Pool.mem_of_find? hr))
    have hfollows : Follows timeout r.id y c r.rest s :=
      ⟨hy, hc, his.running, his.rest, hm.heard, hm.counted⟩
    have hhalts : Halts timeout r.id y c s (.waits r.rest r.paid r.wait, s.asleep r.id) :=
      hfollows.halts (docket_asleep s r.id) ⟨rfl, hstop⟩
    exact hhalts.cutOff hm hc his (fun _ hrests => hrests.2) hlate
  | @early r _ _ => exact of_docket ⟨y, hy, rfl, hm⟩ (docket_asleep s r.id)

theorem takeTask (h : Tallied timeout asked s) : Tallied timeout asked s.takeTask := by
  rw [CacheSystem.takeTask]
  split
  · exact h
  · split
    · exact h
    · rename_i r p hp
      refine look ?_ _
      refine of_docket (s := { s with pool := p }) ?_ (docket_wakeHead _)
      obtain ⟨t, later, hwaiting, rfl, rfl⟩ := Pool.start?_eq_some_iff.1 hp
      obtain ⟨y, hy, rfl, hm⟩ := h
      have hnext : y.waiting = t :: later := hm.waiting.trans hwaiting
      obtain ⟨owed, howes⟩ := hy.sound.waiting t (hnext ▸ List.mem_cons_self)
      refine ⟨_, hy.tail (.begin hnext), rfl, ?_⟩
      have hbegin := hm.begin later howes.not_counts
      simpa [docket, Run.stint] using hbegin

theorem goToQueue (h : Tallied timeout asked s) : Tallied timeout asked s.goToQueue := by
  rw [CacheSystem.goToQueue]
  split
  · exact h.takeTask
  · exact takeTask (s := { s.spend with headAtQueue := true }) h

theorem work (h : Tallied timeout asked s) (hs : s.Work s') : Tallied timeout asked s' := by
  cases hs with
  | @serve turn rest hready =>
    cases turn with
    | arrive => exact h.of_docket (docket_rejoin _)
    | head =>
      exact goToQueue (s := { s with ready := rest, left := turnLength, headReady := false }) h
    | again => exact takeTask (s := { s with ready := rest, headReady := false }) h
    | resume id => exact look (s := { s with ready := rest, left := turnLength }) h id
  | turnBack hready => exact h
  | tick time =>
    obtain ⟨y, hy, rfl, hm⟩ := h
    exact ⟨_, hy.tail (.tick time), rfl, congrArg (max · time) hm.now, hm.timeout, hm.waiting,
      hm.started, hm.heard, hm.counted, hm.stints, hm.running⟩
  | fire => exact h.of_docket (docket_blind.fire s)

theorem works (h : Tallied timeout asked s) (hs : s.Works s') : Tallied timeout asked s' := by
  induction hs with
  | refl => exact h
  | tail _ hs ih => exact ih.work hs

/-- The last inquiry makes a step. -/
theorem answer {o : LayerOp} {heard more : List Heard} {raised raised' : List Raise}
    {rest rest' : Call o.Value} (h : Tallied timeout (asked ++ [⟨o, heard, raised, rest⟩]) s)
    (hs : rest.Step more raised' rest') (s' : CacheSystem)
    (hwaiting : s'.pool.waiting = s.pool.waiting ++ more.filterMap Heard.accepted?)
    (hdocket : s'.docket = { s.docket with
      waiting := s'.pool.waiting
      calls := more.filterMap Heard.call? ++ s.probe.answered
      counted := raised' ++ s.counted }) :
    Tallied timeout (asked ++ [⟨o, heard ++ more, raised ++ raised', rest'⟩]) s' := by
  obtain ⟨y, hy, hasked, hm⟩ := h
  have hlast : y.inquiries[asked.length]? = some ⟨o, heard, raised, rest⟩ := by
    rw [hasked]
    exact List.getElem?_concat_length
  refine ⟨_, hy.tail (.answer hlast hs), ?_, ?_⟩
  · simp [hasked, Inquiry.after]
  · rw [hdocket, hwaiting]
    exact ⟨hm.now, hm.timeout, congrArg (· ++ _) hm.waiting, hm.started,
      List.filterMap_append.trans (congrArg (_ ++ ·) hm.heard), congrArg (_ ++ ·) hm.counted,
      hm.stints, hm.running⟩

/-- The last inquiry offers a task. -/
theorem offer {o : LayerOp} {heard : List Heard} {raised : List Raise} {t : Task}
    {next : Bool → Call o.Value}
    (h : Tallied timeout (asked ++ [⟨o, heard, raised, .submit t next⟩]) s) :
    Tallied timeout (asked ++ [⟨o, heard ++ [.offered t (s.submit t).1],
      raised ++ t.onOffer (s.submit t).1, next (s.submit t).1⟩]) (s.submit t).2 := by
  rw [CacheSystem.submit]
  split
  · exact h.answer .refuse (s.count .dropped t.ns) (List.append_nil _).symm rfl
  · rename_i p hp
    obtain ⟨-, rfl⟩ := Pool.submit?_eq_some_iff.1 hp
    exact (h.answer .accept { s with
      pool := { s.pool with waiting := s.pool.waiting ++ [t], pending := s.pool.pending + 1 } }
      rfl rfl).of_docket (docket_wakeHead _)

/-- One more inquiry begins. -/
theorem ask (h : Tallied timeout asked s) {o : LayerOp} (ho : o.Admitted) :
    Tallied timeout (asked ++ [⟨o, [], [], o.on Call.layer⟩]) s := by
  obtain ⟨y, hy, rfl, hm⟩ := h
  exact ⟨_, hy.tail (.ask o ho), rfl, hm.now, hm.timeout, hm.waiting, hm.started, hm.heard,
    hm.counted, hm.stints, hm.running⟩

end Tallied

/-! ## The foreground -/

/-- Whether a system carries out a call: what the call answers, and what comes of the system. -/
inductive Carries {α : Type} : Call α → CacheSystem → α → CacheSystem → Prop where
  | done (v : α) (s : CacheSystem) : Carries (.done v) s v s
  | get {key : String} {next : Fetched → Call α} {s s' : CacheSystem} {v : α}
      (h : Carries (next ((layer (m := Id)).get key s).1) ((layer (m := Id)).get key s).2 v s') :
      Carries (.get key next) s v s'
  | delete {key : String} {next : Changed → Call α} {s s' : CacheSystem} {v : α}
      (h : Carries (next ((layer (m := Id)).delete key s).1) ((layer (m := Id)).delete key s).2 v
        s') : Carries (.delete key next) s v s'
  | count {c : Counter} {ns : Namespace} {next : Call α} {s s' : CacheSystem} {v : α}
      (h : Carries next (s.count c ns) v s') : Carries (.count c ns next) s v s'
  | submit {t : Task} {next : Bool → Call α} {s s' : CacheSystem} {v : α}
      (h : Carries (next (s.submit t).1) (s.submit t).2 v s') : Carries (.submit t next) s v s'

/-- Whether something that the foreground does is a call. -/
def Plays {α : Type} (x : StateM CacheSystem α) (call : Call α) : Prop :=
  ∀ s, Carries call s (x.run s).1 (x.run s).2

section Plays
variable {α : Type}

theorem plays_pure (v : α) : Plays (pure v) (.done v) := fun s => .done v s

theorem plays_get (key : String) {f : Fetched → StateM CacheSystem α} {next : Fetched → Call α}
    (h : ∀ answer, Plays (f answer) (next answer)) :
    Plays (layer.get key >>= f) (.get key next) := fun _ => .get (h _ _)

theorem plays_delete (key : String) {f : Changed → StateM CacheSystem α} {next : Changed → Call α}
    (h : ∀ answer, Plays (f answer) (next answer)) :
    Plays (layer.delete key >>= f) (.delete key next) := fun _ => .delete (h _ _)

theorem plays_count (c : Counter) (ns : Namespace) {x : StateM CacheSystem α} {next : Call α}
    (h : Plays x next) : Plays (layer.count c ns >>= fun _ => x) (.count c ns next) :=
  fun _ => .count (h _)

theorem plays_submit (t : Task) {f : Bool → StateM CacheSystem α} {next : Bool → Call α}
    (h : ∀ accepted, Plays (f accepted) (next accepted)) :
    Plays (layer.submit t >>= f) (.submit t next) := fun _ => .submit (h _ _)

/-- The layer of a system carries out what it is asked for. -/
theorem plays_on (o : LayerOp) : Plays (o.on layer) (o.on Call.layer) := by
  cases o with
  | lookup ns key decode =>
    show Plays (layer.lookup ns key decode) (Call.layer.lookup ns key decode)
    rw [Call.lookup_eq]
    refine plays_get key fun answer => ?_
    rcases answer with fault | _ | bytes
    · exact plays_count .error ns (plays_pure none)
    · exact plays_count .miss ns (plays_pure none)
    · cases hread : Json.Decoder.ofBytes? decode bytes with
      | some a =>
        simp only [hread]
        exact plays_count .hit ns (plays_pure (some a))
      | none =>
        simp only [hread]
        exact plays_count .error ns (plays_pure none)
  | store ns key encoded ttl =>
    cases encoded with
    | none => exact plays_count .error ns (plays_pure false)
    | some value => exact plays_submit _ plays_pure
  | remove ns key =>
    refine plays_delete key fun answer => ?_
    cases answer with
    | ok _ => exact plays_pure ()
    | error fault => exact plays_count .error ns (plays_pure ())
  | submit t => exact plays_submit t plays_pure

end Plays

/-- What the layer of a system answers, and what comes of the system. -/
def ask (s : CacheSystem) (o : LayerOp) : o.Value × CacheSystem := (o.on (layer (m := Id))).run s

/-- An inquiry that the system carries out hears, counts and returns the same. -/
theorem Carries.tallied {timeout : ℕ} {asked : List Inquiry} {o : LayerOp} {rest : Call o.Value}
    {s s' : CacheSystem} {v : o.Value} (hs : Carries rest s v s') {heard : List Heard}
    {raised : List Raise} (h : Tallied timeout (asked ++ [⟨o, heard, raised, rest⟩]) s) :
    ∃ heard raised, Tallied timeout (asked ++ [⟨o, heard, raised, .done v⟩]) s' := by
  induction hs generalizing heard raised with
  | done v s => exact ⟨heard, raised, h⟩
  | @get key next s s' v _ ih =>
    exact ih ((h.works (works_pause s _)).answer (.get _) _ (List.append_nil _).symm
      (docket_probe _ (answered_get _ key)))
  | @delete key next s s' v _ ih =>
    exact ih ((h.works (works_pause s _)).answer (.delete _) _ (List.append_nil _).symm
      (docket_probe _ (answered_delete _ key)))
  | @count c ns next s s' v _ ih =>
    exact ih (h.answer .count (s.count c ns) (List.append_nil _).symm rfl)
  | submit _ ih => exact ih h.offer

/-- It is made of what can happen to a system. -/
theorem Carries.acts {α : Type} {call : Call α} {s s' : CacheSystem} {v : α}
    (hs : Carries call s v s') : Relation.ReflTransGen (Act fun _ => True) s s' := by
  have hwaits {s s' : CacheSystem} (h : s.Works s') :
      Relation.ReflTransGen (Act fun _ => True) s s' := h.lift id fun _ _ => .work
  induction hs with
  | done v s => exact .refl
  | get _ ih => exact ((hwaits (works_pause _ _)).tail (.probe _)).trans ih
  | delete _ ih => exact ((hwaits (works_pause _ _)).tail (.probe _)).trans ih
  | count _ ih => exact .head (.count _ _) ih
  | submit _ ih => exact .head (.submit trivial) ih

/-- What comes of a system that is used: the foreground asks its layer, there is background work,
gates are opened, and the backend may change in all but its record of calls. The log has what
was asked for and what was answered. -/
inductive Used (capacity workers queue timeout : ℕ) :
    CacheSystem → List ((o : LayerOp) × o.Value) → Prop where
  | start : Used capacity workers queue timeout (start capacity workers queue timeout) []
  | ask {s : CacheSystem} {log : List ((o : LayerOp) × o.Value)}
      (h : Used capacity workers queue timeout s log) (o : LayerOp) (ho : o.Admitted) :
      Used capacity workers queue timeout (s.ask o).2 (log ++ [⟨o, (s.ask o).1⟩])
  | work {s s' : CacheSystem} {log : List ((o : LayerOp) × o.Value)}
      (h : Used capacity workers queue timeout s log) (hs : s.Work s') :
      Used capacity workers queue timeout s' log
  | openGate {s : CacheSystem} {log : List ((o : LayerOp) × o.Value)}
      (h : Used capacity workers queue timeout s log) (name : String) :
      Used capacity workers queue timeout (s.openGate name) log
  | probe {s : CacheSystem} {log : List ((o : LayerOp) × o.Value)}
      (h : Used capacity workers queue timeout s log) {p : Probe} (hp : p.calls = s.probe.calls) :
      Used capacity workers queue timeout { s with probe := p } log

/-- An inquiry that has returned as the log has it. -/
def Logged (a : Inquiry) (e : (o : LayerOp) × o.Value) : Prop :=
  ∃ heard raised, a = ⟨e.1, heard, raised, .done e.2⟩

namespace Used

variable {capacity workers queue timeout : ℕ} {s : CacheSystem}
  {log : List ((o : LayerOp) × o.Value)}

theorem reached (h : Used capacity workers queue timeout s log) :
    s.Reached capacity workers queue timeout fun _ => True := by
  induction h with
  | start => exact .refl
  | ask _ o _ ih => exact ih.trans (plays_on o _).acts
  | work _ hs ih => exact ih.tail (.work hs)
  | openGate _ name ih => exact ih.tail (.openGate name)
  | probe _ _ ih => exact ih.tail (.probe _)

/-- What happens in a system is told by some tally. -/
theorem tallied (h : Used capacity workers queue timeout s log) :
    ∃ asked, List.Forall₂ Logged asked log ∧ Tallied timeout asked s := by
  induction h with
  | start =>
    refine ⟨[], .nil, Tally.start timeout, .refl, rfl, rfl, rfl, rfl, rfl, rfl, rfl, ?_, ?_⟩
    · simp [docket, CacheSystem.start, Pool.empty]
    · simp [Tally.start]
  | ask _ o ho ih =>
    obtain ⟨asked, hlog, htallied⟩ := ih
    obtain ⟨heard, raised, hdone⟩ := (plays_on o _).tallied (htallied.ask ho)
    exact ⟨_, List.rel_append hlog (.cons ⟨heard, raised, rfl⟩ .nil), hdone⟩
  | work _ hs ih =>
    obtain ⟨asked, hlog, htallied⟩ := ih
    exact ⟨asked, hlog, htallied.work hs⟩
  | @openGate s _ _ name ih =>
    obtain ⟨asked, hlog, htallied⟩ := ih
    exact ⟨asked, hlog, htallied.of_docket (docket_blind.openGate s name)⟩
  | @probe s _ _ p hp ih =>
    obtain ⟨asked, hlog, htallied⟩ := ih
    refine ⟨asked, hlog, htallied.of_docket (docket_probe s ?_)⟩
    exact congrArg (List.filter _) hp

theorem works (h : Used capacity workers queue timeout s log) {s' : CacheSystem}
    (hs : s.Works s') : Used capacity workers queue timeout s' log := by
  induction hs with
  | refl => exact h
  | tail _ hs ih => exact ih.work hs

end Used
end CacheSystem

/-! ## The counters of a layer -/

/-- However inquiries and jobs take turns, whatever they hear and however jobs end,
what was counted is what they have raised, and each of them raises what it should. An
inquiry has raised nothing until its last step and accounts for what it has heard when it
returns: a lookup for one hit, miss or error in its own namespace, a value that could not
be encoded or an entry that could not be deleted for one error, a task that was refused for
having dropped it. A task that was accepted waits or is begun once; its job has raised an
error for each failed write of an entry, nothing if it counts nothing itself, and in its
namespace a timeout if it was cut off, which is after its deadline.

So it is in every executed system. A tally tells all that was counted in it and, up to
writes that succeeded, all that its backend has recorded; the inquiries are those of the log, the
open chores are the runs; and when nobody is ready and nothing is due, all chores
that are over their deadline have ended. A system comes to that whenever the clock
is moved. -/
theorem counters_add_up :
    (∀ (timeout : ℕ) (y : Tally), y.Reachable timeout →
      y.counted.Perm (y.inquiries.flatMap (·.raised) ++ y.chores.flatMap (·.raised)) ∧
      y.heard.Perm (y.inquiries.flatMap (·.heard) ++ y.chores.flatMap (·.heard)) ∧
      (y.chores.map (·.task) ++ y.waiting).Perm (y.inquiries.flatMap Inquiry.accepted) ∧
      (∀ a ∈ y.inquiries, (∀ v, a.rest = .done v → a.op.Accounts a.heard a.raised v) ∧
        ((∀ v, a.rest ≠ .done v) → a.raised = [])) ∧
      ∀ c ∈ y.chores, ∃ owed, c.task.Owes owed ∧
        (c.ending = none → ¬ c.rest.Counts → c.raised = owed c.heard) ∧
        ∀ how, c.ending = some how → c.raised = owed c.heard ++ c.task.onEnd how ∧
          (how = .cutOff → c.deadline ≤ y.now)) ∧
    ∀ (capacity workers queue timeout : ℕ) (s : CacheSystem) (log : List ((o : LayerOp) × o.Value)),
      CacheSystem.Used capacity workers queue timeout s log →
      ∃ y : Tally, y.Reachable timeout ∧ y.counted = s.counted ∧
        y.heard.filterMap Heard.call? = s.probe.answered ∧
        List.Forall₂ CacheSystem.Logged y.inquiries log ∧
        y.waiting = s.pool.waiting ∧ y.chores.length = s.pool.started ∧
        (∀ r ∈ s.pool.running, ∃ c, y.chores[r.id]? = some c ∧ c.Is r.stint) ∧
        (∀ i c, y.chores[i]? = some c → c.ending = none → ∃ r ∈ s.pool.running, r.id = i) ∧
        (s.AtRest → ∀ c ∈ y.chores, c.ending = none → s.now < c.deadline) ∧
        ∀ ms, (s.advance ms).AtRest ∧
          CacheSystem.Used capacity workers queue timeout (s.advance ms) log := by
  refine ⟨fun timeout y hy => ?_, fun capacity workers queue timeout s log h => ?_⟩
  · have hsound := hy.sound
    refine ⟨hsound.counted, hsound.heard, hsound.tasks, fun a ha => ⟨fun v hv => ?_, ?_⟩,
      fun c hc => ?_⟩
    · have htells := hsound.inquiries a ha
      rw [hv] at htells
      exact htells
    · exact (hsound.inquiries a ha).raised_eq
    · obtain ⟨owed, howes, hsettles⟩ := hsound.chores c hc
      refine ⟨owed, howes, fun hopen => (hsettles.pays hopen).eq, fun how hhow => ?_⟩
      rw [Chore.Settles, hhow] at hsettles
      exact hsettles
  · obtain ⟨asked, hlog, y, hy, rfl, hm⟩ := h.tallied
    have hrunning : ∀ i c, y.chores[i]? = some c → c.ending = none →
        ∃ r ∈ s.pool.running, r.id = i := by
      intro i c hc hopen
      obtain ⟨a, ha, rfl⟩ := hm.running i c hc hopen
      obtain ⟨r, hr, rfl⟩ := List.mem_map.1 ha
      exact ⟨r, hr, rfl⟩
    have hstints : ∀ r ∈ s.pool.running, ∃ c, y.chores[r.id]? = some c ∧ c.Is r.stint :=
      fun r hr => (hm.stints r.stint (List.mem_map_of_mem hr)).1
    refine ⟨y, hy, hm.counted, hm.heard, hlog, hm.waiting, hm.started, hstints, hrunning,
      fun hrest c hc hopen => ?_, fun ms => ?_⟩
    · obtain ⟨i, hi⟩ := List.getElem?_of_mem hc
      obtain ⟨r, hr, rfl⟩ := hrunning i c hi hopen
      obtain ⟨c', hc', his⟩ := hstints r hr
      obtain rfl : c' = c := Option.some.inj (hc'.symm.trans hi)
      exact his.deadline.symm ▸ h.reached.not_overdue hrest hr
    · obtain ⟨hworks, hrest⟩ := s.comes_advance ms
      exact ⟨hrest, h.works hworks⟩

/-- One worker and one place. A job that sleeps for too long is cut off, a task that finds
its place taken is dropped, a task cannot write what it is to store, and a lookup finds
nothing. -/
theorem counters_of_four_mishaps :
    ∃ (s : CacheSystem) (log : List ((o : LayerOp) × o.Value)),
      CacheSystem.Used 4 1 1 5 s log ∧ log.length = 4 ∧ s.pool.running.length = 0 ∧
      s.counted = [(.miss, .posts), (.error, .posts), (.timeout, .similar), (.dropped, .authors)] ∧
      ∃ y : Tally, y.Reachable 5 ∧ y.inquiries.length = 4 ∧ (∀ c ∈ y.chores, c.ending ≠ none) ∧
        s.counted.Perm (y.inquiries.flatMap (·.raised) ++ y.chores.flatMap (·.raised)) := by
  let nap : LayerOp := .submit ⟨.similar, "nap", .sleep 10 .done⟩
  let keep (ns : Namespace) : LayerOp := .store ns "k" (some .empty) 60
  let seek : LayerOp := .lookup .posts "k" Json.Decoder.text
  let full := (((CacheSystem.start 4 1 1 5).ask nap).2.ask (keep .authors)).2
  let s₁ := (CacheSystem.idleWithin 20 full).getD full
  have hwait : full.idle = s₁ := CacheSystem.idle_eq_getD (by decide +kernel)
  let s₂ : CacheSystem := { s₁ with probe := s₁.probe.addFault .set "k" }
  have hcalls (p : Probe) : (p.addFault .set "k").calls = p.calls := rfl
  let kept := (s₂.ask (keep .posts)).2
  let s₃ := (CacheSystem.idleWithin 20 kept).getD kept
  have hwait' : kept.idle = s₃ := CacheSystem.idle_eq_getD (by decide +kernel)
  let s₄ := (s₃.ask seek).2
  have h₁ : CacheSystem.Used 4 1 1 5 s₁ _ :=
    hwait ▸ ((CacheSystem.Used.start.ask nap trivial).ask (keep .authors) trivial).works
      (CacheSystem.works_idle _)
  have h₂ : CacheSystem.Used 4 1 1 5 s₂ _ := CacheSystem.Used.probe h₁ (hcalls s₁.probe)
  have h₃ : CacheSystem.Used 4 1 1 5 s₃ _ :=
    hwait' ▸ (h₂.ask (keep .posts) trivial).works (CacheSystem.works_idle _)
  have h₄ : CacheSystem.Used 4 1 1 5 s₄ _ := h₃.ask seek trivial
  have hidle : s₄.pool.running.length = 0 := by decide +kernel
  obtain ⟨y, hy, hcounted, -, hlog, -, -, -, hrunning, -⟩ := counters_add_up.2 _ _ _ _ _ _ h₄
  refine ⟨s₄, _, h₄, rfl, hidle, by decide +kernel, y, hy, hlog.length_eq, fun c hc hopen => ?_, ?_⟩
  · obtain ⟨i, hi⟩ := List.getElem?_of_mem hc
    obtain ⟨r, hr, -⟩ := hrunning i c hi hopen
    rw [List.eq_nil_of_length_eq_zero hidle] at hr
    exact List.not_mem_nil hr
  · exact hcounted ▸ (counters_add_up.1 5 y hy).1

end FilmCatalog
