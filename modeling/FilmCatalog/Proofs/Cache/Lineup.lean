import FilmCatalog.Cache.Pool
import FilmCatalog.Proofs.Cache.Deadlock

/-!
# Runs in line for their stripes

A stripe that is taken has a line of runs that wait for it; whoever gives it back
gives it to the first of them. A lineup is what matters of a pool to this: what
each run holds, what it waits for, and what is left of its job then. It is sound
if every job climbs, no stripe is held twice, those who wait are those in line,
and nobody is in line for a stripe that is free.

Every change of one run is an instance of `Lineup.Sound.change`. A stripe on its
way from one run to another is spare, neither held nor free.

Key definitions: `Stand`, `Stand.todo`, `Lineup`, `Lineup.Sound`.
Key theorems: `Lineup.Sound.change`, `Lineup.Sound.gain`, `Lineup.Sound.lineUp`,
`Lineup.Sound.leave`.
-/

namespace FilmCatalog

/-! ## How runs stand -/

/-- How a run stands: its stripes, what it waits for, and its job from there on. -/
@[ext]
structure Stand where
  id : ℕ
  held : List ℕ
  wait : Wait
  rest : Job

/-- What is left of the job. One that waits for a stripe has yet to take it. -/
def Stand.todo (a : Stand) : Job :=
  match a.wait with
  | .stripe i => .lock i a.rest
  | _ => a.rest

theorem Stand.todo_eq_rest {a : Stand} (h : ∀ i, a.wait ≠ .stripe i) : a.todo = a.rest := by
  rw [todo]
  split
  · rename_i i hwait
    exact absurd hwait (h i)
  · rfl

/-- How a run stands in its pool. -/
def Run.stand (r : Run) : Stand := ⟨r.id, r.held, r.wait, r.rest⟩

/-- The tasks that wait, how runs stand, and who is in line for what. -/
@[ext]
structure Lineup where
  waiting : List Task
  started : ℕ
  stands : List Stand
  line : List (ℕ × ℕ)
  gates : List (String × ℕ)

namespace Lineup

variable {v : Lineup} {a b : Stand} {id i : ℕ} {f g : Stand → Stand} {spare : List ℕ}

/-- The stripes that somebody holds. -/
def taken (v : Lineup) : List ℕ := v.stands.flatMap (·.held)

/-- The others than the run of an id. -/
def others (v : Lineup) (id : ℕ) : List Stand := v.stands.filter (·.id != id)

/-- Changes how the run of an id stands. -/
def change (v : Lineup) (id : ℕ) (f : Stand → Stand) : Lineup :=
  { v with stands := v.stands.map fun a => if a.id = id then f a else a }

/-- The run of an id has a job to go on with from some wait on. -/
def onto (v : Lineup) (id : ℕ) (wait : Wait) (rest : Job) : Lineup :=
  v.change id fun a => { a with wait, rest }

/-- Takes out the run of an id. -/
def leave (v : Lineup) (id : ℕ) : Lineup :=
  { v with
    stands := v.others id
    line := v.line.filter (·.2 != id)
    gates := v.gates.filter (·.2 != id) }

theorem change_self : v.change id (fun a => a) = v :=
  Lineup.ext rfl rfl ((List.map_congr_left fun a _ => ite_self a).trans (List.map_id _)) rfl rfl

theorem change_change (hf : ∀ a, (f a).id = a.id) :
    (v.change id f).change id g = v.change id (g ∘ f) := by
  refine Lineup.ext rfl rfl ?_ rfl rfl
  show (v.stands.map _).map _ = v.stands.map _
  rw [List.map_map]
  refine List.map_congr_left fun a _ => ?_
  by_cases ha : a.id = id <;> simp [ha, hf]

theorem ids_change (hf : ∀ a, (f a).id = a.id) :
    (v.change id f).stands.map (·.id) = v.stands.map (·.id) := by
  rw [change, List.map_map]
  refine List.map_congr_left fun a _ => ?_
  rw [Function.comp_apply]
  split
  · exact hf a
  · rfl

/-- What holds of a lineup while some stripes are neither taken nor passed on:
whatever is left of a job climbs, a stripe has one place at most, those who are
in line are those who wait, and nobody waits for a stripe that is free. -/
structure Sound (spare : List ℕ) (v : Lineup) : Prop where
  waiting : ∀ t ∈ v.waiting, t.job.Climbs []
  started : ∀ a ∈ v.stands, a.id < v.started
  ids : (v.stands.map (·.id)).Nodup
  climbs : ∀ a ∈ v.stands, a.todo.Climbs a.held
  nodup : (spare ++ v.taken).Nodup
  lined : ∀ j n, (j, n) ∈ v.line ↔ ∃ a ∈ v.stands, a.id = n ∧ a.wait = .stripe j
  line : v.line.Nodup
  held : ∀ w ∈ v.line, w.1 ∈ spare ++ v.taken
  gated : ∀ w ∈ v.gates, ∃ a ∈ v.stands, a.id = w.2 ∧ a.wait = .gate w.1
  gates : v.gates.Nodup

/-! ## One run among others -/

theorem mem_others : b ∈ v.others id ↔ b ∈ v.stands ∧ b.id ≠ id := by
  simp [others]

theorem others_eq_self {l : List Stand} (h : ∀ b ∈ l, b.id ≠ id) :
    l.filter (·.id != id) = l ∧ (l.map fun b => if b.id = id then f b else b) = l :=
  ⟨List.filter_eq_self.2 fun b hb => by simpa using h b hb,
    (List.map_congr_left fun b hb => if_neg (h b hb)).trans (List.map_id l)⟩

/-- A run stands at one place. -/
theorem exists_around (hids : (v.stands.map (·.id)).Nodup) (ha : a ∈ v.stands) :
    ∃ before behind, v.stands = before ++ a :: behind ∧ v.others a.id = before ++ behind ∧
      ∀ f, (v.change a.id f).stands = before ++ f a :: behind := by
  obtain ⟨before, behind, hstands⟩ := List.append_of_mem ha
  rw [hstands, List.map_append, List.map_cons, List.nodup_middle, ← List.map_append] at hids
  have hne : ∀ b ∈ before ++ behind, b.id ≠ a.id := fun b hb heq =>
    (List.nodup_cons.1 hids).1 (heq ▸ List.mem_map_of_mem hb)
  have hbefore := fun f => others_eq_self (f := f) fun b hb => hne b (List.mem_append_left _ hb)
  have hbehind := fun f => others_eq_self (f := f) fun b hb => hne b (List.mem_append_right _ hb)
  refine ⟨before, behind, hstands, ?_, fun f => ?_⟩
  · rw [others, hstands, List.filter_append, List.filter_cons, if_neg (by simp), (hbefore id).1,
      (hbehind id).1]
  · show v.stands.map _ = _
    rw [hstands, List.map_append, List.map_cons, if_pos rfl, (hbefore f).2, (hbehind f).2]

/-- A run and the others, also after a change of the run. -/
theorem perm_of_mem (hids : (v.stands.map (·.id)).Nodup) (ha : a ∈ v.stands) (f : Stand → Stand) :
    v.stands.Perm (a :: v.others a.id) ∧ (v.change a.id f).stands.Perm (f a :: v.others a.id) := by
  obtain ⟨before, behind, hstands, hothers, hchange⟩ := exists_around hids ha
  rw [hothers, hchange, hstands]
  exact ⟨List.perm_middle, List.perm_middle⟩

namespace Sound

variable {next : Job} {wait : Wait}

/-- A run is in line for what it waits for. -/
theorem lined_iff (h : v.Sound spare) (ha : a ∈ v.stands) :
    (i, a.id) ∈ v.line ↔ a.wait = .stripe i := by
  refine (h.lined i a.id).trans ⟨?_, fun hwait => ⟨a, ha, rfl, hwait⟩⟩
  rintro ⟨b, hb, hid, hwait⟩
  rwa [List.inj_on_of_nodup_map h.ids hb ha hid] at hwait

theorem wait_of_gated (h : v.Sound spare) (ha : a ∈ v.stands) {name : String}
    (hgate : (name, a.id) ∈ v.gates) : a.wait = .gate name := by
  obtain ⟨b, hb, hid, hwait⟩ := h.gated _ hgate
  rwa [List.inj_on_of_nodup_map h.ids hb ha hid] at hwait

/-- One run comes to stand otherwise, in other lines, and stripes go to it or come from it. -/
theorem change (h : v.Sound spare) (ha : a ∈ v.stands) (hid : (f a).id = a.id)
    (hclimbs : (f a).todo.Climbs (f a).held) {spare' : List ℕ}
    (hheld : (spare' ++ (f a).held).Perm (spare ++ a.held)) {line : List (ℕ × ℕ)}
    (hline : ∀ j n, (j, n) ∈ line ↔
      n = a.id ∧ (f a).wait = .stripe j ∨ n ≠ a.id ∧ (j, n) ∈ v.line) (hnodup : line.Nodup)
    (hwants : ∀ j, (f a).wait = .stripe j → j ∈ spare ++ v.taken) {gates : List (String × ℕ)}
    (hgates : ∀ w ∈ gates, w.2 = a.id ∧ (f a).wait = .gate w.1 ∨ w.2 ≠ a.id ∧ w ∈ v.gates)
    (hgnodup : gates.Nodup) :
    Sound spare' { v.change a.id f with line := line, gates := gates } := by
  obtain ⟨hperm, hchange⟩ := perm_of_mem h.ids ha f
  have hcases : ∀ b ∈ (v.change a.id f).stands, b = f a ∨ b ∈ v.stands ∧ b.id ≠ a.id :=
    fun b hb => (List.mem_cons.1 (hchange.mem_iff.1 hb)).imp_right mem_others.1
  have hother : ∀ b ∈ v.stands, b.id ≠ a.id → b ∈ (v.change a.id f).stands := fun b hb hne =>
    hchange.mem_iff.2 (List.mem_cons_of_mem _ (mem_others.2 ⟨hb, hne⟩))
  have hself : f a ∈ (v.change a.id f).stands := hchange.mem_iff.2 List.mem_cons_self
  have htaken : (spare' ++ (v.change a.id f).taken).Perm (spare ++ v.taken) := by
    have hnow := (hchange.flatMap_right fun b => b.held).append_left spare'
    have hbefore := (hperm.flatMap_right fun b => b.held).append_left spare
    rw [List.flatMap_cons, ← List.append_assoc] at hnow hbefore
    exact hnow.trans ((hheld.append_right _).trans hbefore.symm)
  refine ⟨h.waiting, fun b hb => ?_, ?_, fun b hb => ?_, htaken.nodup_iff.2 h.nodup,
    fun j n => ⟨fun hmem => ?_, ?_⟩, hnodup, fun w hw => htaken.mem_iff.2 ?_, fun w hw => ?_,
    hgnodup⟩
  · rcases hcases b hb with rfl | ⟨hb, -⟩
    · exact hid ▸ h.started a ha
    · exact h.started b hb
  · refine (hchange.map _).nodup_iff.2 ?_
    rw [List.map_cons, hid, ← List.map_cons (f := fun b : Stand => b.id)]
    exact (hperm.map _).nodup_iff.1 h.ids
  · rcases hcases b hb with rfl | ⟨hb, -⟩
    · exact hclimbs
    · exact h.climbs b hb
  · rcases (hline j n).1 hmem with ⟨rfl, hwait⟩ | ⟨hne, hmem⟩
    · exact ⟨f a, hself, hid, hwait⟩
    · obtain ⟨b, hb, rfl, hwait⟩ := (h.lined j n).1 hmem
      exact ⟨b, hother b hb hne, rfl, hwait⟩
  · rintro ⟨b, hb, rfl, hwait⟩
    rcases hcases b hb with rfl | ⟨hb, hne⟩
    · exact (hline j _).2 (.inl ⟨hid, hwait⟩)
    · exact (hline j _).2 (.inr ⟨hne, (h.lined_iff hb).2 hwait⟩)
  · rcases (hline w.1 w.2).1 hw with ⟨-, hwait⟩ | ⟨-, hmem⟩
    · exact hwants w.1 hwait
    · exact h.held w hmem
  · rcases hgates w hw with ⟨hn, hwait⟩ | ⟨hne, hmem⟩
    · exact ⟨f a, hself, hid.trans hn.symm, hwait⟩
    · obtain ⟨b, hb, hn, hwait⟩ := h.gated w hmem
      exact ⟨b, hother b hb (hn ▸ hne), hn, hwait⟩

/-- A run that is in no line for stripes leaves all such lines as they are. -/
theorem line_iff (h : v.Sound spare) (wait : Wait) (ha : a ∈ v.stands)
    (hnow : ∀ j, a.wait ≠ .stripe j) (hthen : ∀ j, wait ≠ .stripe j) (j n : ℕ) :
    (j, n) ∈ v.line ↔ n = a.id ∧ wait = .stripe j ∨ n ≠ a.id ∧ (j, n) ∈ v.line := by
  have hne : (j, n) ∈ v.line → n ≠ a.id := by
    rintro hmem rfl
    exact hnow j ((h.lined_iff ha).1 hmem)
  have hnot := hthen j
  tauto

theorem gates_cases (h : v.Sound spare) (ha : a ∈ v.stands) (hnow : ∀ name, a.wait ≠ .gate name)
    (w : String × ℕ) (hw : w ∈ v.gates) :
    w.2 = a.id ∧ wait = .gate w.1 ∨ w.2 ≠ a.id ∧ w ∈ v.gates := by
  refine .inr ⟨fun hn => hnow w.1 (h.wait_of_gated ha ?_), hw⟩
  rw [← hn]
  exact hw

/-- A run that is in no line goes on without a stripe. -/
theorem go (h : v.Sound spare) (ha : a ∈ v.stands) (hstripe : ∀ j, a.wait ≠ .stripe j)
    (hgate : ∀ name, a.wait ≠ .gate name) (hthen : wait = .nothing ∨ ∃ t, wait = .until t)
    (hnext : next.Climbs a.held) : (v.onto a.id wait next).Sound spare := by
  have hthen' : ∀ j, wait ≠ .stripe j := by rcases hthen with rfl | ⟨t, rfl⟩ <;> simp
  refine h.change ha rfl ?_ (.refl _) (h.line_iff _ ha hstripe hthen') h.line
    (fun j hj => absurd hj (hthen' j)) (h.gates_cases ha hgate) h.gates
  rcases hthen with rfl | ⟨t, rfl⟩ <;> exact hnext

/-- A run that waits for nobody may go on with its job. -/
theorem resume (h : v.Sound spare) (ha : a ∈ v.stands) (hstripe : ∀ j, a.wait ≠ .stripe j)
    (hgate : ∀ name, a.wait ≠ .gate name) : (v.onto a.id .nothing a.rest).Sound spare := by
  refine h.go ha hstripe hgate (.inl rfl) ?_
  have hclimbs := h.climbs a ha
  rwa [Stand.todo_eq_rest hstripe] at hclimbs

/-- A run goes in line for a stripe that is taken. -/
theorem lineUp (h : v.Sound []) (ha : a ∈ v.stands) (hwait : a.wait = .nothing)
    (hrest : a.rest = .lock i next) (hi : i ∈ v.taken) :
    Sound [] { v.change a.id fun a => { a with wait := .stripe i, rest := next } with
      line := v.line ++ [(i, a.id)] } := by
  have hnot : (i, a.id) ∉ v.line := fun hmem => by
    have hstripe := (h.lined_iff ha).1 hmem
    rw [hwait] at hstripe
    cases hstripe
  have hclimbs := h.climbs a ha
  rw [Stand.todo, hwait, hrest] at hclimbs
  refine h.change (f := fun a => { a with wait := .stripe i, rest := next }) ha rfl hclimbs
    (.refl _) (fun j n => ?_) (List.nodup_append.2 ⟨h.line, List.nodup_singleton _, ?_⟩)
    (fun j hj => ?_) (h.gates_cases ha (by simp [hwait])) h.gates
  · rw [List.mem_append, List.mem_singleton, Prod.mk.injEq,
      h.line_iff .nothing ha (by simp [hwait]) (by simp)]
    simp only [Wait.stripe.injEq]
    tauto
  · intro w hw w' hw'
    obtain rfl := List.mem_singleton.1 hw'
    exact fun heq => hnot (heq ▸ hw)
  · obtain rfl := Wait.stripe.inj hj
    exact hi

/-- A run goes in line at a gate. -/
theorem gateUp (h : v.Sound []) (ha : a ∈ v.stands) (hwait : a.wait = .nothing) (name : String)
    (hnext : next.Climbs a.held) :
    Sound [] { v.change a.id fun a => { a with wait := .gate name, rest := next } with
      gates := v.gates ++ [(name, a.id)] } := by
  have hnot : (name, a.id) ∉ v.gates := fun hmem => by
    have hgate := h.wait_of_gated ha hmem
    rw [hwait] at hgate
    cases hgate
  refine h.change (f := fun a => { a with wait := .gate name, rest := next }) ha rfl hnext (.refl _)
    (h.line_iff _ ha (by simp [hwait]) (by simp)) h.line (fun j hj => nomatch hj) (fun w hw => ?_)
    (List.nodup_append.2 ⟨h.gates, List.nodup_singleton _, ?_⟩)
  · rcases List.mem_append.1 hw with hw | hw
    · exact h.gates_cases ha (by simp [hwait]) w hw
    · obtain rfl := List.mem_singleton.1 hw
      exact .inl ⟨rfl, rfl⟩
  · intro w hw w' hw'
    obtain rfl := List.mem_singleton.1 hw'
    exact fun heq => hnot (heq ▸ hw)

/-- A run that waited at a gate is let through. -/
theorem pass (h : v.Sound []) (ha : a ∈ v.stands) {name : String} (hwait : a.wait = .gate name) :
    Sound [] { v.change a.id fun a => { a with wait := .granted } with
      gates := v.gates.erase (name, a.id) } := by
  have hclimbs := h.climbs a ha
  rw [Stand.todo, hwait] at hclimbs
  refine h.change (f := fun a => { a with wait := .granted }) ha rfl hclimbs (.refl _)
    (h.line_iff _ ha (by simp [hwait]) (by simp)) h.line (fun j hj => nomatch hj)
    (fun w hw => .inr ?_) (h.gates.erase _)
  obtain ⟨hne, hmem⟩ := h.gates.mem_erase_iff.1 hw
  refine ⟨fun hn => hne ?_, hmem⟩
  have hgate : a.wait = .gate w.1 := h.wait_of_gated ha (hn ▸ hmem)
  rw [hwait] at hgate
  exact Prod.ext (Wait.gate.inj hgate).symm hn

/-- A stripe goes to a run that takes it now or waited for it. -/
theorem gain (h : v.Sound (i :: spare)) (f : Stand → Stand) (ha : a ∈ v.stands)
    (hid : (f a).id = a.id) (hheld : (f a).held = a.held ++ [i])
    (htodo : a.todo = .lock i (f a).rest) (hnow : a.wait = .nothing ∨ a.wait = .stripe i)
    (hthen : (f a).wait = .nothing ∨ (f a).wait = .granted) :
    Sound spare { v.change a.id f with line := v.line.erase (i, a.id) } := by
  have hclimbs := h.climbs a ha
  rw [htodo] at hclimbs
  have hstripe : ∀ j, (f a).wait ≠ .stripe j := by rcases hthen with h | h <;> simp [h]
  refine h.change ha hid ?_ ?_ (fun j n => ?_) (h.line.erase _)
    (fun j hj => absurd hj (hstripe j)) (h.gates_cases ha (by rcases hnow with h | h <;> simp [h]))
    h.gates
  · rw [hheld, Stand.todo]
    rcases hthen with h | h <;> rw [h] <;> exact hclimbs.2.2
  · rw [hheld, ← List.append_assoc]
    exact (List.perm_append_singleton _ _)
  · rw [h.line.mem_erase_iff]
    have hself : (j, a.id) ∈ v.line → j = i := fun hmem => by
      have hwait := (h.lined_iff ha).1 hmem
      rcases hnow with hnow | hnow <;> rw [hnow] at hwait <;> cases hwait
      rfl
    have hnot := hstripe j
    constructor
    · rintro ⟨hne, hmem⟩
      refine .inr ⟨?_, hmem⟩
      rintro rfl
      exact hne (congrArg (·, a.id) (hself hmem))
    · rintro (⟨-, hwait⟩ | ⟨hne, hmem⟩)
      · exact absurd hwait hnot
      · exact ⟨fun heq => hne (congrArg Prod.snd heq), hmem⟩

/-- A stripe that nobody waits for becomes free. -/
theorem drop (h : v.Sound (i :: spare)) (hi : ∀ w ∈ v.line, w.1 ≠ i) : v.Sound spare :=
  { h with
    nodup := (List.nodup_cons.1 h.nodup).2
    held := fun w hw => (List.mem_cons.1 (h.held w hw)).resolve_left (hi w hw) }

/-- A free stripe is about to be taken. -/
theorem reserve (h : v.Sound spare) (hi : i ∉ spare ++ v.taken) : v.Sound (i :: spare) :=
  { h with
    nodup := List.nodup_cons.2 ⟨hi, h.nodup⟩
    held := fun w hw => List.mem_cons_of_mem i (h.held w hw) }

/-- The task that waited longest begins. -/
theorem begin (h : v.Sound []) {t : Task} {later : List Task} (hwaiting : v.waiting = t :: later) :
    Sound [] { v with
      waiting := later
      started := v.started + 1
      stands := v.stands ++ [⟨v.started, [], .nothing, t.job⟩] } := by
  have hnew : ∀ b ∈ v.stands, b.id ≠ v.started := fun b hb => (h.started b hb).ne
  have htaken : Lineup.taken { v with
      waiting := later
      started := v.started + 1
      stands := v.stands ++ [⟨v.started, [], .nothing, t.job⟩] } = v.taken := by
    simp [Lineup.taken]
  refine ⟨fun t' ht' => h.waiting t' (hwaiting ▸ List.mem_cons_of_mem t ht'), fun b hb => ?_, ?_,
    fun b hb => ?_, htaken ▸ h.nodup, fun j n => (h.lined j n).trans ?_, h.line, htaken ▸ h.held,
    fun w hw => ?_, h.gates⟩
  · rcases List.mem_append.1 hb with hb | hb
    · exact (h.started b hb).trans (Nat.lt_succ_self _)
    · obtain rfl := List.mem_singleton.1 hb
      exact Nat.lt_succ_self _
  · rw [List.map_append, List.map_singleton, List.nodup_append]
    refine ⟨h.ids, List.nodup_singleton _, fun n hn n' hn' => ?_⟩
    obtain ⟨b, hb, rfl⟩ := List.mem_map.1 hn
    obtain rfl := List.mem_singleton.1 hn'
    exact hnew b hb
  · rcases List.mem_append.1 hb with hb | hb
    · exact h.climbs b hb
    · obtain rfl := List.mem_singleton.1 hb
      exact h.waiting t (hwaiting ▸ List.mem_cons_self)
  · simp
  · obtain ⟨b, hb, hn, hwait⟩ := h.gated w hw
    exact ⟨b, List.mem_append_left _ hb, hn, hwait⟩

/-- A run ends, and its stripes are given back. -/
theorem leave (h : v.Sound []) (ha : a ∈ v.stands) : (v.leave a.id).Sound a.held := by
  obtain ⟨hperm, -⟩ := perm_of_mem h.ids ha id
  have htaken : v.taken.Perm (a.held ++ (v.leave a.id).taken) := by
    have htaken := hperm.flatMap_right fun b => b.held
    rwa [List.flatMap_cons] at htaken
  have hmem : ∀ b ∈ (v.leave a.id).stands, b ∈ v.stands ∧ b.id ≠ a.id := fun b => mem_others.1
  refine ⟨h.waiting, fun b hb => h.started b (hmem b hb).1, ?_,
    fun b hb => h.climbs b (hmem b hb).1, htaken.nodup_iff.1 h.nodup, fun j n => ?_,
    h.line.filter _, fun w hw => htaken.mem_iff.1 (h.held w (List.mem_of_mem_filter hw)),
    fun w hw => ?_, h.gates.filter _⟩
  · exact h.ids.sublist (List.filter_sublist.map _)
  · show (j, n) ∈ v.line.filter _ ↔ _
    rw [List.mem_filter, h.lined]
    constructor
    · rintro ⟨⟨b, hb, rfl, hwait⟩, hne⟩
      exact ⟨b, mem_others.2 ⟨hb, by simpa using hne⟩, rfl, hwait⟩
    · rintro ⟨b, hb, rfl, hwait⟩
      exact ⟨⟨b, (hmem b hb).1, rfl, hwait⟩, by simpa using (hmem b hb).2⟩
  · obtain ⟨hw, hne⟩ := List.mem_filter.1 hw
    obtain ⟨b, hb, hn, hwait⟩ := h.gated w hw
    exact ⟨b, mem_others.2 ⟨hb, by rw [hn]; simpa using hne⟩, hn, hwait⟩

end Sound

/-! ## A run that goes on with its job -/

section Onto
variable {job next : Job} {wait : Wait}

/-- What is changed once more after it was gone on to. -/
theorem change_onto : (v.onto id wait job).change id f =
    v.change id fun a => f { a with wait, rest := job } :=
  change_change fun _ => rfl

theorem ids_onto : (v.onto id wait job).stands.map (·.id) = v.stands.map (·.id) :=
  ids_change fun _ => rfl

theorem mem_onto (wait : Wait) (job : Job) (ha : a ∈ v.stands) :
    { a with wait, rest := job } ∈ (v.onto a.id wait job).stands :=
  List.mem_map.2 ⟨a, ha, if_pos rfl⟩

theorem taken_onto : (v.onto id wait job).taken = v.taken := by
  rw [taken, taken, onto, change, List.flatMap_map]
  refine List.flatMap_congr fun a _ => ?_
  split <;> rfl

namespace Sound

theorem onto_go (h : (v.onto a.id .nothing job).Sound []) (ha : a ∈ v.stands)
    (hthen : wait = .nothing ∨ ∃ t, wait = .until t)
    (hnext : job.Climbs a.held → next.Climbs a.held) : (v.onto a.id wait next).Sound [] := by
  have hself := mem_onto .nothing job ha
  have hgo := h.go hself (by simp) (by simp) hthen (hnext (h.climbs _ hself))
  exact (congrArg (Sound []) change_onto).mp hgo

theorem onto_lineUp (h : (v.onto a.id .nothing (.lock i next)).Sound []) (ha : a ∈ v.stands)
    (hi : i ∈ v.taken) :
    Sound [] { v.onto a.id (.stripe i) next with line := v.line ++ [(i, a.id)] } := by
  have hline := h.lineUp (mem_onto _ _ ha) rfl rfl (taken_onto.symm ▸ hi)
  exact (congrArg (fun v' : Lineup => Sound [] { v' with line := v.line ++ [(i, a.id)] })
    change_onto).mp hline

theorem onto_gateUp {name : String} (h : (v.onto a.id .nothing (.gate name next)).Sound [])
    (ha : a ∈ v.stands) :
    Sound [] { v.onto a.id (.gate name) next with gates := v.gates ++ [(name, a.id)] } := by
  have hself := mem_onto .nothing (.gate name next) ha
  have hnext : next.Climbs a.held := h.climbs _ hself
  have hgate := h.gateUp hself rfl name hnext
  exact (congrArg (fun v' : Lineup => Sound [] { v' with gates := v.gates ++ [(name, a.id)] })
    change_onto).mp hgate

theorem onto_take (h : (v.onto a.id .nothing (.lock i next)).Sound []) (ha : a ∈ v.stands)
    (hi : i ∉ v.taken) :
    ((v.change a.id fun a => { a with held := a.held ++ [i] }).onto a.id .nothing next).Sound
      [] := by
  have hself := mem_onto .nothing (.lock i next) ha
  have hgain := (h.reserve (taken_onto.symm ▸ hi)).gain
    (fun a => { a with held := a.held ++ [i], wait := .nothing, rest := next }) hself rfl rfl rfl
    (.inl rfl) (.inl rfl)
  have hnot : (i, a.id) ∉ v.line := fun hmem => nomatch (h.lined_iff hself).1 hmem
  rw [show (v.onto a.id .nothing (.lock i next)).line.erase (i, a.id) = v.line from
    List.erase_of_not_mem hnot] at hgain
  have hsame : (v.onto a.id .nothing (.lock i next)).change a.id
      (fun a => { a with held := a.held ++ [i], wait := .nothing, rest := next }) =
      (v.change a.id fun a => { a with held := a.held ++ [i] }).onto a.id .nothing next := by
    rw [onto, onto, change_change, change_change]
    · rfl
    · exact fun _ => rfl
    · exact fun _ => rfl
  exact (congrArg (fun v' : Lineup => Sound [] { v' with line := v.line }) hsame).mp hgain

theorem onto_leave (h : (v.onto id wait job).Sound []) (ha : a ∈ v.stands) (hid : a.id = id) :
    (v.leave id).Sound a.held := by
  subst hid
  have hothers : (v.onto a.id wait job).others a.id = v.others a.id := by
    rw [others, others, onto, Lineup.change, List.filter_map]
    have hids : ∀ b : Stand, ((·.id != a.id) ∘ fun b : Stand =>
        if b.id = a.id then { b with wait, rest := job } else b) b = (b.id != a.id) := by
      intro b
      rw [Function.comp_apply]
      split <;> rfl
    rw [List.filter_congr fun b _ => hids b]
    exact (List.map_congr_left fun b hb => if_neg (by simpa using List.of_mem_filter hb)).trans
      (List.map_id _)
  have hleave := h.leave (mem_onto _ _ ha)
  exact (congrArg (fun others => Sound a.held { v.leave a.id with stands := others }) hothers).mp
    hleave

end Sound
end Onto

end Lineup
end FilmCatalog
