import FilmCatalog.Proofs.Cache.Accounting
import FilmCatalog.Proofs.Cache.Call

/-!
# What is counted

Inquiries of a cache layer and the tasks of its pool, in any order. An inquiry
looks for an entry, has one stored or deleted, or submits a task of its own;
between two of its calls another inquiry or a job may go on. The calls have any
answers, a task may be accepted or refused, and a job may end, panic or be cut
off wherever it has to wait.

A tally has what each inquiry and each job has heard and what it has raised,
beside all that was counted. What an inquiry raises by the time it returns
follows from what it has heard (`LayerOp.Accounts`), and so does what a job
raises by the time it ends (`Task.Owes`, `Chore.Settles`).

Key definitions: `Heard`, `Call.Step`, `Job.Step`, `LayerOp`, `LayerOp.Accounts`, `Task.Owes`,
`Inquiry`, `Chore`, `Tally`, `Tally.Step`, `Tally.Reachable`, `Tally.Sound`.
Key theorems: `LayerOp.tells_on`, `Task.Owes.pays`, `Tally.Sound.step`, `Tally.Reachable.sound`.
-/

namespace FilmCatalog

/-! ## What is heard and what is raised -/

/-- A counter that is raised by one, and the namespace for which it is. -/
abbrev Raise := Counter × Namespace

/-- What an inquiry or a job gets to hear. -/
inductive Heard where
  | found (key : String) (answer : Fetched)
  | wrote (key : String) (answer : Changed)
  | deleted (key : String) (answer : Changed)
  | offered (t : Task) (accepted : Bool)

/-- The task that was accepted. -/
def Heard.accepted? : Heard → Option Task
  | offered t true => some t
  | _ => none

/-- One step of a call: it hears something or counts. A task that is refused is counted. -/
inductive Call.Step {α : Type} : Call α → List Heard → List Raise → Call α → Prop where
  | get {key : String} {next : Fetched → Call α} (answer : Fetched) :
      Step (.get key next) [.found key answer] [] (next answer)
  | delete {key : String} {next : Changed → Call α} (answer : Changed) :
      Step (.delete key next) [.deleted key answer] [] (next answer)
  | count {c : Counter} {ns : Namespace} {next : Call α} :
      Step (.count c ns next) [] [(c, ns)] next
  | accept {t : Task} {next : Bool → Call α} :
      Step (.submit t next) [.offered t true] [] (next true)
  | refuse {t : Task} {next : Bool → Call α} :
      Step (.submit t next) [.offered t false] [(.dropped, t.ns)] (next false)

/-- One step of a job: it hears something, counts, or has waited. -/
inductive Job.Step : Job → List Heard → List Raise → Job → Prop where
  | lock {i : ℕ} {next : Job} : Step (.lock i next) [] [] next
  | get {key : String} {next : Fetched → Job} (answer : Fetched) :
      Step (.get key next) [.found key answer] [] (next answer)
  | set {key : String} {value : ByteArray} {ttl : ℕ} {next : Changed → Job} (answer : Changed) :
      Step (.set key value ttl next) [.wrote key answer] [] (next answer)
  | delete {key : String} {next : Changed → Job} (answer : Changed) :
      Step (.delete key next) [.deleted key answer] [] (next answer)
  | count {c : Counter} {ns : Namespace} {next : Job} : Step (.count c ns next) [] [(c, ns)] next
  | sleep {ms : ℕ} {next : Job} : Step (.sleep ms next) [] [] next
  | gate {name : String} {next : Job} : Step (.gate name next) [] [] next

/-- Whether a job is about to count. It does so at once when it has heard what it counts, so
that it is never stopped there. -/
def Job.Counts : Job → Prop
  | .count _ _ _ => True
  | _ => False

/-- Whether a job counts nothing, whatever it hears. -/
def Job.Quiet : Job → Prop
  | .done => True
  | .panic => True
  | .lock _ next => next.Quiet
  | .get _ next => ∀ answer, (next answer).Quiet
  | .set _ _ _ next => ∀ answer, (next answer).Quiet
  | .delete _ next => ∀ answer, (next answer).Quiet
  | .count _ _ _ => False
  | .sleep _ next => next.Quiet
  | .gate _ next => next.Quiet

theorem Job.Quiet.not_counts {job : Job} (h : job.Quiet) : ¬ job.Counts := by
  cases job with
  | count => exact h.elim
  | _ => exact id

/-! ## Inquiries -/

/-- What a cache layer can be asked for. -/
inductive LayerOp : Type 1 where
  | lookup {α : Type} (ns : Namespace) (key : String) (decode : Json.Decoder α)
  | store (ns : Namespace) (key : String) (encoded : Option ByteArray) (ttl : ℕ)
  | remove (ns : Namespace) (key : String)
  | submit (t : Task)

namespace LayerOp

/-- What is answered. -/
def Value : LayerOp → Type
  | @lookup α _ _ _ => Option α
  | store _ _ _ _ => Bool
  | remove _ _ => Unit
  | submit _ => Bool

/-- Asks a layer. -/
def on {m : Type → Type} [Monad m] (layer : CacheLayer m) : (o : LayerOp) → m o.Value
  | lookup ns key decode => layer.lookup ns key decode
  | store ns key encoded ttl => layer.storeLater ns key encoded ttl
  | remove ns key => layer.remove ns key
  | submit t => layer.submit t

/-- Whether something may be asked for: the jobs that are submitted count nothing themselves. -/
def Admitted : LayerOp → Prop
  | submit t => t.job.Quiet
  | _ => True

end LayerOp

/-! ## What has to be counted -/

/-- What a change counts: an error if it failed. -/
def Namespace.onChange (ns : Namespace) : Changed → List Raise
  | .ok _ => []
  | .error _ => [(.error, ns)]

namespace Task

/-- What the offer of a task counts: that it was dropped, if it was refused. -/
def onOffer (t : Task) (accepted : Bool) : List Raise := if accepted then [] else [(.dropped, t.ns)]

/-- What the end of a task counts: that its time was over, if it was cut off. -/
def onEnd (t : Task) : Ending → List Raise
  | .cutOff => [(.timeout, t.ns)]
  | _ => []

end Task

/-- What an inquiry has counted when it returns a value, by what it has heard. A lookup counts a
hit if it gives something, a miss if there is no entry, and an error if the call failed or
the entry cannot be decoded. -/
def LayerOp.Accounts : (o : LayerOp) → List Heard → List Raise → o.Value → Prop
  | lookup ns key decode, heard, raised, v =>
    ∃ answer c, heard = [.found key answer] ∧ raised = [(c, ns)] ∧
      (c = .hit ∨ c = .miss ∨ c = .error) ∧ (c = .hit ↔ ∃ a, v = some a) ∧
      (c = .miss ↔ answer = .ok none) ∧
      (c = .error ↔ (∃ fault, answer = .error fault) ∨
        ∃ bytes, answer = .ok (some bytes) ∧ Json.Decoder.ofBytes? decode bytes = none)
  | store ns _ none _, heard, raised, v => heard = [] ∧ raised = [(.error, ns)] ∧ v = false
  | store ns key (some value) ttl, heard, raised, v =>
    let t : Task := ⟨ns, key, Job.store ns key value ttl⟩
    heard = [.offered t v] ∧ raised = t.onOffer v
  | remove ns key, heard, raised, _ =>
    ∃ answer, heard = [.deleted key answer] ∧ raised = ns.onChange answer
  | submit t, heard, raised, v => heard = [.offered t v] ∧ raised = t.onOffer v

/-- What counts the failed writes among what was heard. -/
def Namespace.onWrites (ns : Namespace) (heard : List Heard) : List Raise :=
  heard.flatMap fun
    | .wrote _ answer => ns.onChange answer
    | _ => []

/-- What a task has to count, by what it has heard: its failed writes if it stores an entry, and
nothing if it was submitted as one that counts nothing. -/
inductive Task.Owes : Task → (List Heard → List Raise) → Prop where
  | store (ns : Namespace) (key : String) (value : ByteArray) (ttl : ℕ) :
      Owes ⟨ns, key, Job.store ns key value ttl⟩ ns.onWrites
  | quiet {t : Task} (h : t.job.Quiet) : Owes t fun _ => []

/-! ## Calls and jobs that count what they have to -/

/-- Whether a call returns only when it has counted what it has to, and counts nothing before
its last step, whatever it hears. What it submits has something to count by a rule. -/
def Call.Tells {α : Type} (law : List Heard → List Raise → α → Prop) :
    Call α → List Heard → List Raise → Prop
  | .done v, heard, raised => law heard raised v
  | .get key next, heard, raised =>
    raised = [] ∧ ∀ answer, (next answer).Tells law (heard ++ [.found key answer]) []
  | .delete key next, heard, raised =>
    raised = [] ∧ ∀ answer, (next answer).Tells law (heard ++ [.deleted key answer]) []
  | .count c ns next, heard, raised => raised = [] ∧ next.Tells law heard [(c, ns)]
  | .submit t next, heard, raised =>
    raised = [] ∧ (∃ owed, t.Owes owed) ∧
      ∀ accepted, (next accepted).Tells law (heard ++ [.offered t accepted]) (t.onOffer accepted)
  | .consult _ _, _, raised => raised = []

/-- Whether a job has counted what it owes whenever it has to wait and when it ends, whatever it
hears. -/
def Job.Pays (owed : List Heard → List Raise) : Job → List Heard → List Raise → Prop
  | .done, heard, raised => raised = owed heard
  | .panic, heard, raised => raised = owed heard
  | .lock _ next, heard, raised =>
    raised = owed heard ∧ ¬ next.Counts ∧ next.Pays owed heard raised
  | .get key next, heard, raised =>
    raised = owed heard ∧ ∀ answer, (next answer).Pays owed (heard ++ [.found key answer]) raised
  | .set key _ _ next, heard, raised =>
    raised = owed heard ∧ ∀ answer, (next answer).Pays owed (heard ++ [.wrote key answer]) raised
  | .delete key next, heard, raised =>
    raised = owed heard ∧ ∀ answer, (next answer).Pays owed (heard ++ [.deleted key answer]) raised
  | .count c ns next, heard, raised => next.Pays owed heard (raised ++ [(c, ns)])
  | .sleep _ next, heard, raised =>
    raised = owed heard ∧ ¬ next.Counts ∧ next.Pays owed heard raised
  | .gate _ next, heard, raised =>
    raised = owed heard ∧ ¬ next.Counts ∧ next.Pays owed heard raised

section Calls
variable {α : Type} {law : List Heard → List Raise → α → Prop} {rest rest' : Call α}
  {heard more : List Heard} {raised raised' : List Raise}

theorem Call.Tells.step (h : rest.Tells law heard raised) (hs : rest.Step more raised' rest') :
    rest'.Tells law (heard ++ more) (raised ++ raised') := by
  cases hs with
  | get answer =>
    obtain ⟨rfl, hnext⟩ := h
    exact hnext answer
  | delete answer =>
    obtain ⟨rfl, hnext⟩ := h
    exact hnext answer
  | count =>
    obtain ⟨rfl, hnext⟩ := h
    rw [List.append_nil]
    exact hnext
  | accept =>
    obtain ⟨rfl, -, hnext⟩ := h
    exact hnext true
  | refuse =>
    obtain ⟨rfl, -, hnext⟩ := h
    exact hnext false

theorem Call.Tells.owes (h : rest.Tells law heard raised) (hs : rest.Step more raised' rest')
    {t : Task} (ht : t ∈ more.filterMap Heard.accepted?) : ∃ owed, t.Owes owed := by
  cases hs with
  | accept =>
    obtain rfl := List.mem_singleton.1 ht
    exact h.2.1
  | _ => cases ht

/-- A call that has not returned has counted nothing. -/
theorem Call.Tells.raised_eq (h : rest.Tells law heard raised) (hrest : ∀ v, rest ≠ .done v) :
    raised = [] := by
  cases rest with
  | done v => exact absurd rfl (hrest v)
  | consult => exact h
  | _ => exact h.1

end Calls

/-- Whatever a layer is asked for is counted as it should be. -/
theorem LayerOp.tells_on (o : LayerOp) (h : o.Admitted) :
    (o.on Call.layer).Tells o.Accounts [] [] := by
  cases o with
  | lookup ns key decode =>
    show (Call.layer.lookup ns key decode).Tells (LayerOp.lookup ns key decode).Accounts [] []
    rw [Call.lookup_eq]
    refine ⟨rfl, fun answer => ?_⟩
    rcases answer with fault | _ | bytes
    · exact ⟨rfl, .error fault, .error, rfl, rfl, by simp⟩
    · exact ⟨rfl, .ok none, .miss, rfl, rfl, by simp⟩
    · cases hread : Json.Decoder.ofBytes? decode bytes with
      | some a =>
        simp only [hread]
        exact ⟨rfl, .ok (some bytes), .hit, rfl, rfl, .inl rfl, iff_of_true rfl ⟨a, rfl⟩, by simp,
          by simp [hread]⟩
      | none =>
        simp only [hread]
        exact ⟨rfl, .ok (some bytes), .error, rfl, rfl, by simp [hread]⟩
  | store ns key encoded ttl =>
    cases encoded with
    | none => exact ⟨rfl, rfl, rfl, rfl⟩
    | some value => exact ⟨rfl, ⟨_, .store ns key value ttl⟩, fun accepted => ⟨rfl, rfl⟩⟩
  | remove ns key =>
    refine ⟨rfl, fun answer => ?_⟩
    cases answer with
    | ok _ => exact ⟨.ok (), rfl, rfl⟩
    | error fault => exact ⟨rfl, .error fault, rfl, rfl⟩
  | submit t => exact ⟨rfl, ⟨_, .quiet h⟩, fun accepted => ⟨rfl, rfl⟩⟩

section Jobs
variable {owed : List Heard → List Raise} {job job' : Job} {heard more : List Heard}
  {raised raised' : List Raise}

theorem Job.Pays.eq (h : job.Pays owed heard raised) (hjob : ¬ job.Counts) :
    raised = owed heard := by
  cases job with
  | done => exact h
  | panic => exact h
  | count => exact absurd trivial hjob
  | _ => exact h.1

theorem Job.Pays.step (h : job.Pays owed heard raised) (hs : job.Step more raised' job') :
    job'.Pays owed (heard ++ more) (raised ++ raised') := by
  cases hs with
  | count => exact (List.append_nil heard).symm ▸ h
  | get answer => exact (List.append_nil raised).symm ▸ h.2 answer
  | set answer => exact (List.append_nil raised).symm ▸ h.2 answer
  | delete answer => exact (List.append_nil raised).symm ▸ h.2 answer
  | _ =>
    rw [List.append_nil, List.append_nil]
    exact h.2.2

theorem Job.Quiet.pays (h : job.Quiet) (heard : List Heard) : job.Pays (fun _ => []) heard [] := by
  induction job generalizing heard with
  | done => rfl
  | panic => rfl
  | count => exact h.elim
  | lock i next ih => exact ⟨rfl, (show next.Quiet from h).not_counts, ih h heard⟩
  | sleep ms next ih => exact ⟨rfl, (show next.Quiet from h).not_counts, ih h heard⟩
  | gate name next ih => exact ⟨rfl, (show next.Quiet from h).not_counts, ih h heard⟩
  | get key next ih => exact ⟨rfl, fun answer => ih answer (h answer) _⟩
  | set key value ttl next ih => exact ⟨rfl, fun answer => ih answer (h answer) _⟩
  | delete key next ih => exact ⟨rfl, fun answer => ih answer (h answer) _⟩

theorem Task.Owes.pays {t : Task} (h : t.Owes owed) : t.job.Pays owed [] [] := by
  cases h with
  | store ns key value ttl =>
    refine ⟨rfl, fun answer => ?_⟩
    cases answer with
    | ok _ => rfl
    | error fault => rfl
  | quiet h => exact h.pays []

theorem Task.Owes.not_counts {t : Task} (h : t.Owes owed) : ¬ t.job.Counts := by
  cases h with
  | store => exact id
  | quiet h => exact h.not_counts

end Jobs

/-! ## Tallies -/

/-- An inquiry, what it has heard and raised, and how it goes on. -/
structure Inquiry where
  op : LayerOp
  heard : List Heard
  raised : List Raise
  rest : Call op.Value

/-- A task that was begun, what it has heard and raised, what is left of its job, and how it
has ended if it has. -/
structure Chore where
  task : Task
  /-- When it is cut off. -/
  deadline : ℕ
  heard : List Heard
  raised : List Raise
  rest : Job
  ending : Option Ending

/-- The tasks that were accepted. -/
def Inquiry.accepted (a : Inquiry) : List Task := a.heard.filterMap Heard.accepted?

/-- The inquiry after a step. -/
def Inquiry.after (a : Inquiry) (heard : List Heard) (raised : List Raise)
    (rest : Call a.op.Value) : Inquiry where
  op := a.op
  heard := a.heard ++ heard
  raised := a.raised ++ raised
  rest := rest

namespace Chore

/-- A task that is begun. -/
def begin (t : Task) (deadline : ℕ) : Chore := ⟨t, deadline, [], [], t.job, none⟩

/-- The chore after a step of its job. -/
def after (c : Chore) (heard : List Heard) (raised : List Raise) (rest : Job) : Chore :=
  { c with heard := c.heard ++ heard, raised := c.raised ++ raised, rest := rest }

/-- The chore after its end. -/
def ended (c : Chore) (how : Ending) : Chore :=
  { c with raised := c.raised ++ c.task.onEnd how, ending := some how }

/-- Whether a chore may end at some time: it is finished, or it panics or is cut off where it has
to wait. -/
def MayEnd (c : Chore) (now : ℕ) : Ending → Prop
  | .finished => c.rest = .done
  | .panicked => ¬ c.rest.Counts
  | .cutOff => ¬ c.rest.Counts ∧ c.deadline ≤ now

/-- Whether a chore counts what it owes: it has or is going to, and when it has ended the end is
counted too. -/
def Settles (owed : List Heard → List Raise) (now : ℕ) (c : Chore) : Prop :=
  match c.ending with
  | none => c.rest.Pays owed c.heard c.raised
  | some how => c.raised = owed c.heard ++ c.task.onEnd how ∧ (how = .cutOff → c.deadline ≤ now)

end Chore

/-- The inquiries and chores so far, in the order in which they began, and what was heard and
counted. -/
structure Tally where
  now : ℕ
  /-- How long a chore may take. -/
  timeout : ℕ
  /-- The first to begin comes first. -/
  waiting : List Task
  chores : List Chore
  inquiries : List Inquiry
  /-- The latest first. -/
  heard : List Heard
  /-- The latest first. -/
  counted : List Raise

namespace Tally

/-- One step of an inquiry or a chore, or of the clock. -/
inductive Step (y : Tally) : Tally → Prop where
  | ask (o : LayerOp) (h : o.Admitted) :
      Step y { y with inquiries := y.inquiries ++ [⟨o, [], [], o.on Call.layer⟩] }
  | answer {i : ℕ} {a : Inquiry} {heard : List Heard} {raised : List Raise} {rest : Call a.op.Value}
      (hi : y.inquiries[i]? = some a) (hs : a.rest.Step heard raised rest) :
      Step y { y with
        inquiries := y.inquiries.set i (a.after heard raised rest)
        waiting := y.waiting ++ heard.filterMap Heard.accepted?
        heard := heard ++ y.heard
        counted := raised ++ y.counted }
  | begin {t : Task} {later : List Task} (h : y.waiting = t :: later) :
      Step y { y with
        waiting := later
        chores := y.chores ++ [.begin t (y.now + y.timeout)] }
  | work {i : ℕ} {c : Chore} {heard : List Heard} {raised : List Raise} {rest : Job}
      (hi : y.chores[i]? = some c) (hopen : c.ending = none) (hs : c.rest.Step heard raised rest) :
      Step y { y with
        chores := y.chores.set i (c.after heard raised rest)
        heard := heard ++ y.heard
        counted := raised ++ y.counted }
  | finish {i : ℕ} {c : Chore} (how : Ending) (hi : y.chores[i]? = some c) (hopen : c.ending = none)
      (h : c.MayEnd y.now how) :
      Step y { y with
        chores := y.chores.set i (c.ended how)
        counted := c.task.onEnd how ++ y.counted }
  | tick (time : ℕ) : Step y { y with now := max y.now time }

/-- The tally of a pool without tasks, when nothing has been asked for. -/
def start (timeout : ℕ) : Tally := ⟨0, timeout, [], [], [], [], []⟩

/-- What comes of it. -/
def Reachable (timeout : ℕ) (y : Tally) : Prop := Relation.ReflTransGen Step (start timeout) y

/-- Whether a tally adds up. -/
structure Sound (y : Tally) : Prop where
  heard : y.heard.Perm (y.inquiries.flatMap (·.heard) ++ y.chores.flatMap (·.heard))
  counted : y.counted.Perm (y.inquiries.flatMap (·.raised) ++ y.chores.flatMap (·.raised))
  /-- Every accepted task waits or was begun. -/
  tasks : (y.chores.map (·.task) ++ y.waiting).Perm (y.inquiries.flatMap Inquiry.accepted)
  inquiries : ∀ a ∈ y.inquiries, a.rest.Tells a.op.Accounts a.heard a.raised
  waiting : ∀ t ∈ y.waiting, ∃ owed, t.Owes owed
  chores : ∀ c ∈ y.chores, ∃ owed, c.task.Owes owed ∧ c.Settles owed y.now

end Tally

section Set
variable {α β : Type*} {i : ℕ} {l : List α} {a b : α}

/-- One more of a list of lists grows. -/
theorem flatMap_set_perm {f : α → List β} {more : List β} (hi : l[i]? = some a)
    (hf : f b = f a ++ more) : ((l.set i b).flatMap f).Perm (more ++ l.flatMap f) := by
  induction l generalizing i with
  | nil => cases hi
  | cons x rest ih =>
    cases i with
    | zero =>
      obtain rfl : x = a := Option.some.inj hi
      rw [List.set_cons_zero, List.flatMap_cons, List.flatMap_cons, hf, List.append_assoc]
      exact List.perm_append_comm_assoc _ _ _
    | succ i =>
      rw [List.set_cons_succ, List.flatMap_cons, List.flatMap_cons]
      exact ((ih hi).append_left _).trans (List.perm_append_comm_assoc _ _ _)

/-- One of two parts of a whole grows, and the whole with it. -/
theorem perm_grow_left {total part part' other more : List α} (h : total.Perm (part ++ other))
    (hpart : part'.Perm (more ++ part)) : (more ++ total).Perm (part' ++ other) := by
  refine (h.append_left more).trans ?_
  rw [← List.append_assoc]
  exact (hpart.append_right other).symm

theorem perm_grow_right {total part part' other more : List α} (h : total.Perm (other ++ part))
    (hpart : part'.Perm (more ++ part)) : (more ++ total).Perm (other ++ part') :=
  (perm_grow_left (h.trans List.perm_append_comm) hpart).trans List.perm_append_comm

theorem set_eq_self (hi : l[i]? = some a) : l.set i a = l := by
  obtain ⟨hlt, rfl⟩ := List.getElem?_eq_some_iff.1 hi
  exact List.set_getElem_self hlt

theorem map_set_of_eq {f : α → β} (hi : l[i]? = some a) (hf : f b = f a) :
    (l.set i b).map f = l.map f := by
  rw [List.map_set, hf]
  exact set_eq_self (by rw [List.getElem?_map, hi]; rfl)

end Set

namespace Chore

variable {c : Chore} {owed : List Heard → List Raise} {now : ℕ}

theorem Settles.mono (h : c.Settles owed now) {later : ℕ} (hle : now ≤ later) :
    c.Settles owed later := by
  obtain ⟨task, deadline, heard, raised, rest, ending⟩ := c
  cases ending with
  | none => exact h
  | some how => exact ⟨h.1, fun hcut => (h.2 hcut).trans hle⟩

theorem Settles.pays (h : c.Settles owed now) (hopen : c.ending = none) :
    c.rest.Pays owed c.heard c.raised := by
  rw [Settles, hopen] at h
  exact h

theorem Settles.after (h : c.Settles owed now) (hopen : c.ending = none) {heard : List Heard}
    {raised : List Raise} {rest : Job} (hs : c.rest.Step heard raised rest) :
    (c.after heard raised rest).Settles owed now := by
  rw [Settles, show (c.after heard raised rest).ending = none from hopen]
  exact (h.pays hopen).step hs

theorem Settles.ended (h : c.Settles owed now) (hopen : c.ending = none) {how : Ending}
    (hend : c.MayEnd now how) : (c.ended how).Settles owed now := by
  have hjob : ¬ c.rest.Counts := by
    cases how with
    | finished =>
      rw [show c.rest = .done from hend]
      exact id
    | panicked => exact hend
    | cutOff => exact hend.1
  refine ⟨congrArg (· ++ c.task.onEnd how) ((h.pays hopen).eq hjob), ?_⟩
  rintro rfl
  exact hend.2

end Chore

namespace Tally.Sound

variable {y y' : Tally}

theorem start (timeout : ℕ) : (Tally.start timeout).Sound where
  heard := .refl _
  counted := .refl _
  tasks := .refl _
  inquiries := by simp [Tally.start]
  waiting := by simp [Tally.start]
  chores := by simp [Tally.start]

theorem ask (h : y.Sound) {o : LayerOp} (ho : o.Admitted) :
    Sound { y with inquiries := y.inquiries ++ [⟨o, [], [], o.on Call.layer⟩] } :=
  { h with
    heard := by simpa using h.heard
    counted := by simpa using h.counted
    tasks := by simpa [Inquiry.accepted] using h.tasks
    inquiries := by
      intro a ha
      rcases List.mem_append.1 ha with ha | ha
      · exact h.inquiries a ha
      · obtain rfl := List.mem_singleton.1 ha
        exact o.tells_on ho }

theorem answer (h : y.Sound) {i : ℕ} {a : Inquiry} {heard : List Heard} {raised : List Raise}
    {rest : Call a.op.Value} (hi : y.inquiries[i]? = some a) (hs : a.rest.Step heard raised rest) :
    Sound { y with
      inquiries := y.inquiries.set i (a.after heard raised rest)
      waiting := y.waiting ++ heard.filterMap Heard.accepted?
      heard := heard ++ y.heard
      counted := raised ++ y.counted } := by
  have hmem := List.mem_of_getElem? hi
  have haccepted : ((y.inquiries.set i (a.after heard raised rest)).flatMap Inquiry.accepted).Perm
      (heard.filterMap Heard.accepted? ++ y.inquiries.flatMap Inquiry.accepted) :=
    flatMap_set_perm hi List.filterMap_append
  exact { h with
    heard := perm_grow_left h.heard (flatMap_set_perm hi rfl)
    counted := perm_grow_left h.counted (flatMap_set_perm hi rfl)
    tasks := by
      rw [← List.append_assoc]
      exact List.perm_append_comm.trans ((h.tasks.append_left _).trans haccepted.symm)
    inquiries := by
      intro b hb
      rcases List.mem_or_eq_of_mem_set hb with hb | rfl
      · exact h.inquiries b hb
      · exact (h.inquiries a hmem).step hs
    waiting := by
      intro t ht
      rcases List.mem_append.1 ht with ht | ht
      · exact h.waiting t ht
      · exact (h.inquiries a hmem).owes hs ht }

theorem begin (h : y.Sound) {t : Task} {later : List Task} (hwaiting : y.waiting = t :: later) :
    Sound { y with waiting := later, chores := y.chores ++ [.begin t (y.now + y.timeout)] } :=
  { h with
    heard := by simpa [Chore.begin] using h.heard
    counted := by simpa [Chore.begin] using h.counted
    tasks := by simpa [Chore.begin, hwaiting] using h.tasks
    waiting := fun t' ht' => h.waiting t' (hwaiting ▸ List.mem_cons_of_mem t ht')
    chores := by
      intro c hc
      rcases List.mem_append.1 hc with hc | hc
      · exact h.chores c hc
      · obtain rfl := List.mem_singleton.1 hc
        obtain ⟨owed, howes⟩ := h.waiting t (hwaiting ▸ List.mem_cons_self)
        exact ⟨owed, howes, howes.pays⟩ }

/-- A chore goes on or ends. -/
theorem set (h : y.Sound) {i : ℕ} {c c' : Chore} {heard : List Heard} {raised : List Raise}
    (hi : y.chores[i]? = some c) (htask : c'.task = c.task) (hheard : c'.heard = c.heard ++ heard)
    (hraised : c'.raised = c.raised ++ raised)
    (hsettles : ∀ owed, c.Settles owed y.now → c'.Settles owed y.now) :
    Sound { y with
      chores := y.chores.set i c'
      heard := heard ++ y.heard
      counted := raised ++ y.counted } :=
  { h with
    heard := perm_grow_right h.heard (flatMap_set_perm hi hheard)
    counted := perm_grow_right h.counted (flatMap_set_perm hi hraised)
    tasks := by
      show ((y.chores.set i c').map (·.task) ++ _).Perm _
      rw [map_set_of_eq hi htask]
      exact h.tasks
    chores := by
      intro b hb
      rcases List.mem_or_eq_of_mem_set hb with hb | rfl
      · exact h.chores b hb
      · obtain ⟨owed, howes, hc⟩ := h.chores c (List.mem_of_getElem? hi)
        exact ⟨owed, htask ▸ howes, hsettles owed hc⟩ }

theorem tick (h : y.Sound) (time : ℕ) : Sound { y with now := max y.now time } :=
  { h with
    chores := fun c hc => by
      obtain ⟨owed, howes, hsettles⟩ := h.chores c hc
      exact ⟨owed, howes, hsettles.mono (le_max_left _ _)⟩ }

theorem step (h : y.Sound) (hs : y.Step y') : y'.Sound := by
  cases hs with
  | ask o ho => exact h.ask ho
  | answer hi hs => exact h.answer hi hs
  | begin hwaiting => exact h.begin hwaiting
  | work hi hopen hs => exact h.set hi rfl rfl rfl fun owed hc => hc.after hopen hs
  | @finish i c how hi hopen hend =>
    have hset : Sound { y with
        chores := y.chores.set i (c.ended how)
        heard := [] ++ y.heard
        counted := c.task.onEnd how ++ y.counted } :=
      h.set hi rfl (List.append_nil _).symm rfl fun owed hc => hc.ended hopen hend
    exact hset
  | tick time => exact h.tick time

end Tally.Sound

theorem Tally.Reachable.sound {timeout : ℕ} {y : Tally} (h : y.Reachable timeout) : y.Sound := by
  induction h with
  | refl => exact .start timeout
  | tail _ hs ih => exact ih.step hs

end FilmCatalog
