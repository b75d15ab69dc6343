import FilmCatalog.Proofs.Cache.Call
import FilmCatalog.Proofs.Json.Stored

/-!
# Reading through the cache

Calls of the cached stores and background jobs over one backend, in any order:
between any two steps another call or another job may go on. Everything
around them may go wrong at any time. A backend call fails, takes effect
later, twice or not at all; an entry is lost or damaged; a job is refused,
panics or is cut off. The store behind the caches answers what it likes,
another time something else.

A call that returns had its answer from the store, or the store gave it to an
earlier call for the same text (`reads_through`). What a call still has to keep
to is said of the tree of what is left of it, for every answer and every longer
log (`Call.Sound`); what a job may still write is said of the tree of that job
(`Job.Writes`).

Key definitions: `Traffic`, `Traffic.Step`, `Traffic.Reachable`, `heard`, `Genuine`, `Recalled`,
`Call.Sound`, `Traffic.Safe`.
Key theorems: `sound_call`, `Traffic.Safe.step`, `reads_through`.
-/

namespace FilmCatalog

/-! ## Traffic -/

/-- What is put down about the calls, each by its number. -/
inductive Event where
  /-- The store behind the caches answered a call. -/
  | answered (call : ℕ) (a : Answer)
  /-- A call came back to its caller. -/
  | returned (call : ℕ) (a : Answer)

/-- What the store answered to a call. -/
def heard (call : ℕ) (log : List Event) : List Answer :=
  log.filterMap fun
    | .answered i a => if i = call then some a else none
    | .returned _ _ => none

/-- A change of an entry: its new value, or none if it is deleted. -/
abbrev Change := String × Option ByteArray

/-- A step of a job: what is left of it then and the changes that it asks
for. Stripes, pauses and gates hold nobody up here. -/
inductive Job.Goes (finds : String → Fetched → Prop) : Job → Job → List Change → Prop where
  | get {key : String} {next : Fetched → Job} {found : Fetched} (h : finds key found) :
      Goes finds (.get key next) (next found) []
  | set {key : String} {value : ByteArray} {ttl : ℕ} {next : Changed → Job} (answer : Changed) :
      Goes finds (.set key value ttl next) (next answer) [(key, some value)]
  | delete {key : String} {next : Changed → Job} (answer : Changed) :
      Goes finds (.delete key next) (next answer) [(key, none)]
  | lock {s : ℕ} {next : Job} : Goes finds (.lock s next) next []
  | count {c : Counter} {ns : Namespace} {next : Job} : Goes finds (.count c ns next) next []
  | sleep {ms : ℕ} {next : Job} : Goes finds (.sleep ms next) next []
  | gate {name : String} {next : Job} : Goes finds (.gate name next) next []

/-- What a call brings about in a step. -/
structure Outcome where
  sent : List Change := []
  queued : List Job := []
  answers : List Answer := []

/-- A step of a call: what is left of it then and what it brings about. -/
inductive Call.Goes {α : Type} (finds : String → Fetched → Prop) : Call α → Call α → Outcome → Prop
    where
  | get {key : String} {next : Fetched → Call α} {found : Fetched} (h : finds key found) :
      Goes finds (.get key next) (next found) {}
  | delete {key : String} {next : Changed → Call α} (answer : Changed) :
      Goes finds (.delete key next) (next answer) { sent := [(key, none)] }
  | count {c : Counter} {ns : Namespace} {next : Call α} : Goes finds (.count c ns next) next {}
  | submit {t : Task} {next : Bool → Call α} :
      Goes finds (.submit t next) (next true) { queued := [t.job] }
  | shed {t : Task} {next : Bool → Call α} : Goes finds (.submit t next) (next false) {}
  | consult {q : Question} {next : Except StoreError q.Value → Call α}
      (answer : Except StoreError q.Value) :
      Goes finds (.consult q next) (next answer) { answers := [⟨q, answer⟩] }

/-- A call for a question, with what is left of it unless it has returned. -/
structure Visit where
  question : Question
  rest : Option (Call (Except StoreError question.Value))

/-- Whether no request can read some bytes under a key. -/
def Unreadable (key : String) (bytes : ByteArray) : Prop :=
  ∀ (o : CachedRead) (f : o.Filter), o.key f = key → o.ofBytes? bytes = none

/-- Calls and jobs over one backend. -/
structure Traffic where
  entries : String → Option ByteArray
  /-- The changes that the backend was asked for so far. -/
  sent : List Change
  jobs : List Job
  /-- The calls by their numbers. -/
  visits : List Visit
  log : List Event

namespace Traffic

/-- What the backend may answer for a key. -/
def Finds (w : Traffic) (key : String) (found : Fetched) : Prop :=
  found = .ok (w.entries key) ∨ ∃ fault, found = .error fault

/-- A call has gone on. -/
def gone (w : Traffic) (i : ℕ) (q : Question) (rest : Call (Except StoreError q.Value))
    (out : Outcome) : Traffic :=
  { w with
    sent := w.sent ++ out.sent
    jobs := w.jobs ++ out.queued
    visits := w.visits.set i ⟨q, some rest⟩
    log := w.log ++ out.answers.map (.answered i) }

/-- A call has returned. -/
def back (w : Traffic) (i : ℕ) (q : Question) (a : Except StoreError q.Value) : Traffic :=
  { w with visits := w.visits.set i ⟨q, none⟩, log := w.log ++ [.returned i ⟨q, a⟩] }

theorem length_visits_gone (w : Traffic) (i : ℕ) (q : Question)
    (rest : Call (Except StoreError q.Value)) (out : Outcome) :
    (w.gone i q rest out).visits.length = w.visits.length :=
  List.length_set

theorem length_visits_back (w : Traffic) (i : ℕ) (q : Question) (a : Except StoreError q.Value) :
    (w.back i q a).visits.length = w.visits.length :=
  List.length_set

/-- One step of the calls, the jobs, or what is around them. -/
inductive Step (c : CacheConfig) (w : Traffic) : Traffic → Prop where
  | asks (q : Question) : Step c w { w with visits := w.visits ++ [⟨q, some (call c q)⟩] }
  | calls {i : ℕ} {q : Question} {rest rest' : Call (Except StoreError q.Value)} {out : Outcome}
      (h : w.visits[i]? = some ⟨q, some rest⟩) (hs : rest.Goes w.Finds rest' out) :
      Step c w (w.gone i q rest' out)
  | returns {i : ℕ} {q : Question} {a : Except StoreError q.Value}
      (h : w.visits[i]? = some ⟨q, some (.done a)⟩) : Step c w (w.back i q a)
  | works {before behind : List Job} {job job' : Job} {changes : List Change}
      (h : w.jobs = before ++ job :: behind) (hs : job.Goes w.Finds job' changes) :
      Step c w { w with jobs := before ++ job' :: behind, sent := w.sent ++ changes }
  /-- A job is done, panics or is cut off. -/
  | ends {before behind : List Job} {job : Job} (h : w.jobs = before ++ job :: behind) :
      Step c w { w with jobs := before ++ behind }
  | lands {key : String} {value : Option ByteArray} (h : (key, value) ∈ w.sent) :
      Step c w { w with entries := Function.update w.entries key value }
  /-- An entry is over or was dropped. -/
  | loses (key : String) : Step c w { w with entries := Function.update w.entries key none }
  | spoils {key : String} {bytes : ByteArray} (h : Unreadable key bytes) :
      Step c w { w with entries := Function.update w.entries key (some bytes) }

/-- Nothing has happened. -/
def start : Traffic := ⟨fun _ => none, [], [], [], []⟩

/-- What comes of it. -/
def Reachable (c : CacheConfig) (w : Traffic) : Prop := Relation.ReflTransGen (Step c) start w

end Traffic

/-! ## What is kept -/

/-- Whether bytes under a key are an answer of the store that is no error, or a
list of fingerprints. -/
def Genuine (log : List Event) (key : String) (bytes : ByteArray) : Prop :=
  (∃ i o f v, .answered i ⟨.read o f, .ok v⟩ ∈ log ∧ o.key f = key ∧ o.encoded v = bytes) ∨
    ∃ id names, indexKey id = key ∧ IndexEntry.write names = bytes

/-- What may be found under a key. -/
def Held (log : List Event) (key : String) (bytes : ByteArray) : Prop :=
  Genuine log key bytes ∨ Unreadable key bytes

/-- Whether an answer was read from what may be found. -/
def Served (log : List Event) (a : Answer) : Prop :=
  ∃ o f v bytes, a = ⟨.read o f, .ok v⟩ ∧ Held log (o.key f) bytes ∧ o.ofBytes? bytes = some v

/-- Whether the store gave an answer that is no error to a call of the same
read for the same text. -/
def Recalled (log : List Event) (a : Answer) : Prop :=
  ∃ i o f g v, a = ⟨.read o f, .ok v⟩ ∧ .answered i ⟨.read o g, .ok v⟩ ∈ log ∧ o.text? g = o.text? f

/-- Whether a call may give an answer after what it heard: all that it heard
is this answer, or it heard nothing and the answer was served. -/
def Justified (log : List Event) (heard : List Answer) (a : Answer) : Prop :=
  heard = [a] ∨ (heard = [] ∧ Served log a)

section Mono
variable {log log' : List Event} {key : String} {bytes : ByteArray} {a : Answer}

theorem Genuine.mono (h : Genuine log key bytes) (hsub : log ⊆ log') : Genuine log' key bytes := by
  rcases h with ⟨i, o, f, v, hmem, hkey, hbytes⟩ | hindex
  · exact .inl ⟨i, o, f, v, hsub hmem, hkey, hbytes⟩
  · exact .inr hindex

theorem Held.mono (h : Held log key bytes) (hsub : log ⊆ log') : Held log' key bytes :=
  h.imp_left fun hgenuine => hgenuine.mono hsub

theorem Served.mono (h : Served log a) (hsub : log ⊆ log') : Served log' a := by
  obtain ⟨o, f, v, bytes, ha, hheld, hread⟩ := h
  exact ⟨o, f, v, bytes, ha, hheld.mono hsub, hread⟩

theorem Justified.mono {said : List Answer} (h : Justified log said a) (hsub : log ⊆ log') :
    Justified log' said a :=
  h.imp_right fun hserved => ⟨hserved.1, hserved.2.mono hsub⟩

end Mono

/-! ## What a job may write -/

/-- Whether all that a job can set satisfies `P`, whatever it is answered. -/
def Job.Writes (P : String → ByteArray → Prop) : Job → Prop
  | .done => True
  | .panic => True
  | .lock _ next => next.Writes P
  | .get _ next => ∀ found, (next found).Writes P
  | .set key value _ next => P key value ∧ ∀ answer, (next answer).Writes P
  | .delete _ next => ∀ answer, (next answer).Writes P
  | .count _ _ next => next.Writes P
  | .sleep _ next => next.Writes P
  | .gate _ next => next.Writes P

namespace Job

variable {P P' : String → ByteArray → Prop} {job job' next : Job}

theorem Writes.mono (h : job.Writes P) (hP : ∀ key bytes, P key bytes → P' key bytes) :
    job.Writes P' := by
  induction job with
  | done => trivial
  | panic => trivial
  | lock _ _ ih => exact ih h
  | get _ _ ih => exact fun found => ih found (h found)
  | set _ _ _ _ ih => exact ⟨hP _ _ h.1, fun answer => ih answer (h.2 answer)⟩
  | delete _ _ ih => exact fun answer => ih answer (h answer)
  | count _ _ _ ih => exact ih h
  | sleep _ _ ih => exact ih h
  | gate _ _ ih => exact ih h

theorem Writes.goes {finds : String → Fetched → Prop} {changes : List Change} (h : job.Writes P)
    (hs : job.Goes finds job' changes) :
    job'.Writes P ∧ ∀ key bytes, (key, some bytes) ∈ changes → P key bytes := by
  cases hs with
  | get hf => exact ⟨h _, by simp⟩
  | set answer =>
    refine ⟨h.2 answer, fun key bytes hmem => ?_⟩
    simp only [List.mem_singleton, Prod.mk.injEq, Option.some.injEq] at hmem
    rw [hmem.1, hmem.2]
    exact h.1
  | delete answer => exact ⟨h answer, by simp⟩
  | lock => exact ⟨h, by simp⟩
  | count => exact ⟨h, by simp⟩
  | sleep => exact ⟨h, by simp⟩
  | gate => exact ⟨h, by simp⟩

theorem writes_lockAll (stripes : List ℕ) (h : next.Writes P) :
    (lockAll stripes next).Writes P := by
  induction stripes with
  | nil => exact h
  | cons s rest ih => exact ih

theorem writes_store (ns : Namespace) {key : String} {value : ByteArray} (ttl : ℕ)
    (h : P key value) : (store ns key value ttl).Writes P := by
  refine ⟨h, fun answer => ?_⟩
  cases answer with
  | ok => trivial
  | error e => trivial

theorem writes_remove (ns : Namespace) (key : String) (h : next.Writes P) :
    (remove ns key next).Writes P := by
  intro answer
  cases answer with
  | ok => exact h
  | error e => exact h

/-- A job that lists a fingerprint writes lists of fingerprints. -/
theorem writes_remember (hP : ∀ id names, P (indexKey id) (IndexEntry.write names)) (id : Int)
    (fingerprint : String) (ttl : ℕ) (h : next.Writes P) :
    (remember id fingerprint ttl next).Writes P := by
  intro found
  cases found with
  | error e => exact h
  | ok found =>
    have hset : ∀ entry, IndexEntry.adding? (found.getD .empty) fingerprint = some entry →
        P (indexKey id) entry := by
      intro entry hentry
      unfold IndexEntry.adding? at hentry
      dsimp only at hentry
      split at hentry
      · cases hentry
      · rw [← Option.some.inj hentry]
        exact hP _ _
    cases hentry : IndexEntry.adding? (found.getD .empty) fingerprint with
    | none =>
      simp only [hentry]
      exact h
    | some entry =>
      simp only [hentry]
      refine ⟨hset entry hentry, fun answer => ?_⟩
      cases answer with
      | ok => exact h
      | error e => exact h

theorem writes_keepResult (hP : ∀ id names, P (indexKey id) (IndexEntry.write names))
    {fingerprint : String} {value : ByteArray} (h : P (Namespace.similar.key fingerprint) value)
    (ids : List Int) (ttl indexTtl : ℕ) :
    (keepResult fingerprint value ids ttl indexTtl).Writes P := by
  have hlist :
      (ids.foldr (fun id next => remember id fingerprint indexTtl next) .done).Writes P := by
    induction ids with
    | nil => trivial
    | cons id rest ih => exact writes_remember hP id fingerprint indexTtl ih
  apply writes_lockAll
  refine ⟨h, fun answer => ?_⟩
  cases answer with
  | ok => exact hlist
  | error e => trivial

/-- A job that forgets a post writes nothing. -/
theorem writes_purge (id : Int) : (purge id).Writes P := by
  apply writes_lockAll
  intro found
  rcases found with e | _ | entry
  · trivial
  · trivial
  · have hlast : (remove .similarIds (indexKey id) .done).Writes P := writes_remove _ _ trivial
    show ((IndexEntry.read entry).foldr
      (fun fingerprint next => remove .similar (Namespace.similar.key fingerprint) next) _).Writes P
    induction IndexEntry.read entry with
    | nil => exact hlast
    | cons fingerprint rest ih => exact writes_remove _ _ ih

end Job

/-- The task of an answer writes that answer and lists of fingerprints. -/
theorem CachedRead.writes_task {log : List Event} {i : ℕ} {o : CachedRead} {f : o.Filter}
    {v : o.Value} (h : .answered i ⟨.read o f, .ok v⟩ ∈ log) (c : CacheConfig) :
    (o.task c f v).job.Writes (Genuine log) := by
  have hv : Genuine log (o.key f) (o.encoded v) := .inl ⟨i, o, f, v, h, rfl, rfl⟩
  have hindex : ∀ id names, Genuine log (indexKey id) (IndexEntry.write names) := fun id names =>
    .inr ⟨id, names, rfl, rfl⟩
  cases o with
  | pages => exact Job.writes_store _ _ hv
  | authors => exact Job.writes_store _ _ hv
  | similar => exact Job.writes_keepResult hindex hv _ _ _

/-! ## What a call may answer -/

/-- What is wanted of the log, of what a call has heard, and of what it gives back. -/
abbrev Wanted (α : Type) := List Event → List Answer → α → Prop

/-- What is wanted of a call for a question. -/
def Question.wanted (q : Question) : Wanted (Except StoreError q.Value) := fun log said a =>
  Justified log said ⟨q, a⟩

/-- Whether a call ends as wanted, whatever it is answered, whatever else
happens in between, and submits only what writes genuine entries. -/
def Call.Sound {α : Type} (wanted : Wanted α) : Call α → List Event → List Answer → Prop
  | .done a, log, said => wanted log said a
  | .get key next, log, said => ∀ log', log ⊆ log' → ∀ found,
      (∀ bytes, found = .ok (some bytes) → Held log' key bytes) →
      (next found).Sound wanted log' said
  | .delete _ next, log, said => ∀ answer, (next answer).Sound wanted log said
  | .count _ _ next, log, said => next.Sound wanted log said
  | .submit t next, log, said =>
      t.job.Writes (Genuine log) ∧ ∀ queued, (next queued).Sound wanted log said
  | .consult q next, log, said => ∀ log', log ⊆ log' → ∀ i answer,
      .answered i ⟨q, answer⟩ ∈ log' → (next answer).Sound wanted log' (said ++ [⟨q, answer⟩])

namespace Call

variable {α : Type} {wanted : Wanted α} {log log' : List Event} {said : List Answer}
  {call rest rest' : Call α}

/-- What happens elsewhere takes nothing away. -/
theorem Sound.mono (h : call.Sound wanted log said) (hsub : log ⊆ log')
    (hwanted : ∀ said a, wanted log said a → wanted log' said a) :
    call.Sound wanted log' said := by
  induction call generalizing said with
  | done a => exact hwanted _ _ h
  | get key next => exact fun later hlater => h later (List.Subset.trans hsub hlater)
  | delete key next ih => exact fun answer => ih answer (h answer)
  | count c ns next ih => exact ih h
  | submit t next ih =>
    exact ⟨h.1.mono fun _ _ hgenuine => hgenuine.mono hsub, fun queued => ih queued (h.2 queued)⟩
  | consult q next => exact fun later hlater => h later (List.Subset.trans hsub hlater)

/-- What is left of a call after a step, and what the step brings about. -/
theorem Sound.goes {finds : String → Fetched → Prop} {out : Outcome} (i : ℕ)
    (h : rest.Sound wanted log said) (hs : rest.Goes finds rest' out)
    (hfinds : ∀ key bytes, finds key (.ok (some bytes)) → Held log key bytes) :
    rest'.Sound wanted (log ++ out.answers.map (.answered i)) (said ++ out.answers) ∧
      (∀ job ∈ out.queued, job.Writes (Genuine log)) ∧ ∀ change ∈ out.sent, change.2 = none := by
  cases hs with
  | @get key next found hf =>
    refine ⟨?_, by simp, by simp⟩
    have hnext := h log (List.Subset.refl _) found fun bytes hb => hfinds key bytes (hb ▸ hf)
    simpa using hnext
  | delete answer => exact ⟨by simpa using h answer, by simp, by simp⟩
  | count =>
    have hnext : rest'.Sound wanted log said := h
    exact ⟨by simpa using hnext, by simp, by simp⟩
  | submit => exact ⟨by simpa using h.2 true, by simpa using h.1, by simp⟩
  | shed => exact ⟨by simpa using h.2 false, by simp, by simp⟩
  | @consult q next answer =>
    refine ⟨?_, by simp, by simp⟩
    exact h _ (List.subset_append_left _ _) i answer (by simp)

/-- A question that is not kept is passed on, and its answer is passed back. -/
theorem sound_pass (q : Question) : (consult q done).Sound q.wanted log [] :=
  fun _ _ _ _ _ => .inl rfl

theorem sound_fetch (c : CacheConfig) (o : CachedRead) (f : o.Filter) :
    (fetch c o f).Sound (Question.read o f).wanted log [] := by
  intro later _ i answer hanswer
  cases answer with
  | error e => exact .inl rfl
  | ok v => exact ⟨o.writes_task hanswer c, fun queued => .inl rfl⟩

theorem sound_readThrough (c : CacheConfig) (o : CachedRead) (f : o.Filter) :
    (readThrough c o f).Sound (Question.read o f).wanted log [] := by
  intro later _ found hheld
  rcases found with e | _ | bytes
  · exact sound_fetch c o f
  · exact sound_fetch c o f
  · cases hread : Json.Decoder.ofBytes? o.decode bytes with
    | none =>
      simp only [hread]
      exact sound_fetch c o f
    | some v =>
      simp only [hread]
      exact .inr ⟨rfl, o, f, v, bytes, rfl, hheld bytes rfl, hread⟩

end Call

/-- Every call ends with an answer that it may give. -/
theorem sound_call (c : CacheConfig) (q : Question) (log : List Event) :
    (call c q).Sound q.wanted log [] := by
  cases q with
  | read o f =>
    rw [call_read]
    exact Call.sound_readThrough c o f
  | post id => exact Call.sound_pass (.post id)
  | ids => exact Call.sound_pass .ids
  | keywords limit => exact Call.sound_pass (.keywords limit)
  | forget id => exact ⟨Job.writes_purge id, fun queued => Call.sound_pass (.forget id)⟩

/-! ## What was heard -/

theorem heard_append (i : ℕ) (log more : List Event) :
    heard i (log ++ more) = heard i log ++ heard i more :=
  List.filterMap_append

theorem heard_answered (i : ℕ) (answers : List Answer) :
    heard i (answers.map (.answered i)) = answers := by
  simp [heard, List.filterMap_map]

theorem heard_answered_of_ne {i j : ℕ} (h : i ≠ j) (answers : List Answer) :
    heard j (answers.map (.answered i)) = [] := by
  simp [heard, List.filterMap_map, h]

theorem heard_returned (i j : ℕ) (a : Answer) : heard j [.returned i a] = [] := rfl

/-- Whether every call that returned might give its answer at that time. -/
def AllJustified (log : List Event) : Prop :=
  ∀ k i a, log[k]? = some (.returned i a) → Justified (log.take k) (heard i (log.take k)) a

theorem AllJustified.append {log more : List Event} (h : AllJustified log)
    (hmore : ∀ k i a, more[k]? = some (.returned i a) →
      Justified (log ++ more.take k) (heard i (log ++ more.take k)) a) :
    AllJustified (log ++ more) := by
  intro k i a hk
  by_cases hlt : k < log.length
  · rw [List.getElem?_append_left hlt] at hk
    rw [List.take_append_of_le_length hlt.le]
    exact h k i a hk
  · have hle : log.length ≤ k := Nat.le_of_not_lt hlt
    rw [List.getElem?_append_right hle] at hk
    rw [List.take_append, List.take_of_length_le hle]
    exact hmore _ i a hk

/-! ## What holds all along -/

namespace Traffic

variable {c : CacheConfig} {w w' : Traffic}

/-- What every reachable traffic satisfies. -/
structure Safe (w : Traffic) : Prop where
  sent : ∀ key bytes, (key, some bytes) ∈ w.sent → Genuine w.log key bytes
  entries : ∀ key bytes, w.entries key = some bytes → Held w.log key bytes
  jobs : ∀ job ∈ w.jobs, job.Writes (Genuine w.log)
  visits : ∀ (i : ℕ) (q : Question) (rest : Call (Except StoreError q.Value)),
    w.visits[i]? = some ⟨q, some rest⟩ → rest.Sound q.wanted w.log (heard i w.log)
  unheard : ∀ i, w.visits.length ≤ i → heard i w.log = []
  returned : AllJustified w.log

namespace Safe

theorem start : Safe start where
  sent := by simp [Traffic.start]
  entries := by simp [Traffic.start]
  jobs := by simp [Traffic.start]
  visits := by simp [Traffic.start]
  unheard := fun _ _ => rfl
  returned := by simp [Traffic.start, AllJustified]

theorem finds (h : w.Safe) (key : String) (bytes : ByteArray)
    (hf : w.Finds key (.ok (some bytes))) : Held w.log key bytes := by
  rcases hf with hf | ⟨fault, hf⟩
  · exact h.entries key bytes (Except.ok.inj hf).symm
  · cases hf

theorem asks (h : w.Safe) (c : CacheConfig) (q : Question) :
    Safe { w with visits := w.visits ++ [⟨q, some (call c q)⟩] } where
  sent := h.sent
  entries := h.entries
  jobs := h.jobs
  visits := by
    intro i q' rest hi
    by_cases hlt : i < w.visits.length
    · rw [List.getElem?_append_left hlt] at hi
      exact h.visits i q' rest hi
    · have hle : w.visits.length ≤ i := Nat.le_of_not_lt hlt
      rw [List.getElem?_append_right hle, List.getElem?_singleton] at hi
      split at hi
      · cases hi
        show (call c q).Sound q.wanted w.log (heard i w.log)
        rw [h.unheard i hle]
        exact sound_call c q w.log
      · cases hi
  unheard := by
    intro i hi
    rw [List.length_append] at hi
    exact h.unheard i (Nat.le_of_add_right_le hi)
  returned := h.returned

/-- What is left of the other calls when one has gone on. -/
theorem visits_set (h : w.Safe) {i j : ℕ} {v : Visit} {more : List Event}
    (hmore : i ≠ j → heard j more = []) {q : Question} {rest : Call (Except StoreError q.Value)}
    (hj : (w.visits.set i v)[j]? = some ⟨q, some rest⟩)
    (hv : i = j → v = ⟨q, some rest⟩ →
      rest.Sound q.wanted (w.log ++ more) (heard j (w.log ++ more))) :
    rest.Sound q.wanted (w.log ++ more) (heard j (w.log ++ more)) := by
  rw [List.getElem?_set] at hj
  by_cases hij : i = j
  · rw [if_pos hij] at hj
    split at hj
    · exact hv hij (Option.some.inj hj)
    · cases hj
  · rw [if_neg hij] at hj
    rw [heard_append, hmore hij, List.append_nil]
    exact (h.visits j q rest hj).mono (List.subset_append_left _ _) fun _ _ hwanted =>
      hwanted.mono (List.subset_append_left _ _)

theorem calls (h : w.Safe) {i : ℕ} {q : Question} {rest rest' : Call (Except StoreError q.Value)}
    {out : Outcome} (hi : w.visits[i]? = some ⟨q, some rest⟩) (hs : rest.Goes w.Finds rest' out) :
    (w.gone i q rest' out).Safe := by
  have hsub : w.log ⊆ w.log ++ out.answers.map (.answered i) := List.subset_append_left _ _
  obtain ⟨hrest, hqueued, hsent⟩ := (h.visits i q rest hi).goes i hs h.finds
  refine ⟨?_, ?_, ?_, ?_, ?_, ?_⟩
  · intro key bytes hmem
    rcases List.mem_append.1 hmem with hmem | hmem
    · exact (h.sent key bytes hmem).mono hsub
    · cases hsent _ hmem
  · exact fun key bytes hentry => (h.entries key bytes hentry).mono hsub
  · intro job hjob
    have hwrites : job.Writes (Genuine w.log) := by
      rcases List.mem_append.1 hjob with hjob | hjob
      · exact h.jobs job hjob
      · exact hqueued job hjob
    exact hwrites.mono fun _ _ hgenuine => hgenuine.mono hsub
  · intro j q' rest'' hj
    refine h.visits_set (fun hij => heard_answered_of_ne hij _) hj fun hij hv => ?_
    cases hv
    subst hij
    rw [heard_append, heard_answered]
    exact hrest
  · intro j hj
    rw [length_visits_gone] at hj
    have hlt : i < w.visits.length := (List.getElem?_eq_some_iff.1 hi).1
    have hij : i ≠ j := (hlt.trans_le hj).ne
    show heard j (w.log ++ out.answers.map (.answered i)) = []
    rw [heard_append, h.unheard j hj, heard_answered_of_ne hij]
    rfl
  · refine h.returned.append fun k j a hk => ?_
    obtain ⟨b, -, hb⟩ := List.mem_map.1 (List.mem_of_getElem? hk)
    cases hb

theorem returns (h : w.Safe) {i : ℕ} {q : Question} {a : Except StoreError q.Value}
    (hi : w.visits[i]? = some ⟨q, some (.done a)⟩) : (w.back i q a).Safe := by
  have hsub : w.log ⊆ w.log ++ [.returned i ⟨q, a⟩] := List.subset_append_left _ _
  refine ⟨?_, ?_, ?_, ?_, ?_, ?_⟩
  · exact fun key bytes hmem => (h.sent key bytes hmem).mono hsub
  · exact fun key bytes hentry => (h.entries key bytes hentry).mono hsub
  · exact fun job hjob => (h.jobs job hjob).mono fun _ _ hgenuine => hgenuine.mono hsub
  · intro j q' rest hj
    refine h.visits_set (fun _ => heard_returned i j _) hj fun hij hv => ?_
    cases hv
  · intro j hj
    rw [length_visits_back] at hj
    show heard j (w.log ++ [.returned i ⟨q, a⟩]) = []
    rw [heard_append, h.unheard j hj, heard_returned]
    rfl
  · have hwanted : Justified w.log (heard i w.log) ⟨q, a⟩ := h.visits i q (.done a) hi
    refine h.returned.append fun k j b hk => ?_
    rw [List.getElem?_singleton] at hk
    split at hk
    · rename_i hzero
      cases hk
      simpa [hzero] using hwanted
    · cases hk

theorem works (h : w.Safe) {before behind : List Job} {job job' : Job} {changes : List Change}
    (hjobs : w.jobs = before ++ job :: behind) (hs : job.Goes w.Finds job' changes) :
    Safe { w with jobs := before ++ job' :: behind, sent := w.sent ++ changes } := by
  obtain ⟨hjob', hchanges⟩ := (h.jobs job (by simp [hjobs])).goes hs
  refine ⟨?_, h.entries, ?_, h.visits, h.unheard, h.returned⟩
  · intro key bytes hmem
    rcases List.mem_append.1 hmem with hmem | hmem
    · exact h.sent key bytes hmem
    · exact hchanges key bytes hmem
  · intro other hother
    rcases List.mem_append.1 hother with hother | hother
    · exact h.jobs other (by simp [hjobs, hother])
    · rcases List.mem_cons.1 hother with rfl | hother
      · exact hjob'
      · exact h.jobs other (by simp [hjobs, hother])

theorem ends (h : w.Safe) {before behind : List Job} {job : Job}
    (hjobs : w.jobs = before ++ job :: behind) : Safe { w with jobs := before ++ behind } := by
  refine ⟨h.sent, h.entries, ?_, h.visits, h.unheard, h.returned⟩
  intro other hother
  apply h.jobs other
  rcases List.mem_append.1 hother with hother | hother
  · simp [hjobs, hother]
  · simp [hjobs, hother]

theorem changes (h : w.Safe) (key : String) (value : Option ByteArray)
    (hvalue : ∀ bytes, value = some bytes → Held w.log key bytes) :
    Safe { w with entries := Function.update w.entries key value } := by
  refine ⟨h.sent, ?_, h.jobs, h.visits, h.unheard, h.returned⟩
  intro key' bytes hentry
  dsimp only at hentry
  by_cases hkey : key' = key
  · subst hkey
    rw [Function.update_self] at hentry
    exact hvalue bytes hentry
  · rw [Function.update_of_ne hkey] at hentry
    exact h.entries key' bytes hentry

theorem step (h : w.Safe) (hs : Step c w w') : w'.Safe := by
  cases hs with
  | asks q => exact h.asks c q
  | calls hi hs => exact h.calls hi hs
  | returns hi => exact h.returns hi
  | works hjobs hs => exact h.works hjobs hs
  | ends hjobs => exact h.ends hjobs
  | @lands key value hsent =>
    refine h.changes key value fun bytes hb => .inl ?_
    subst hb
    exact h.sent key bytes hsent
  | loses key => exact h.changes key none fun bytes hb => by cases hb
  | @spoils key bytes hspoilt =>
    refine h.changes key (some bytes) fun bytes' hb => .inr ?_
    cases hb
    exact hspoilt

theorem of_reachable (h : Reachable c w) : w.Safe := by
  induction h with
  | refl => exact .start
  | tail _ hs ih => exact ih.step hs

end Safe
/-! ## Ways of calls -/

/-- Some steps. -/
def Steps (c : CacheConfig) : Traffic → Traffic → Prop := Relation.ReflTransGen (Step c)

section Ways
variable {i : ℕ} {q : Question} {rest rest' : Call (Except StoreError q.Value)} {out : Outcome}

/-- A call that has gone on is where it was. -/
theorem visits_gone (h : w.visits[i]? = some ⟨q, some rest⟩) :
    (w.gone i q rest' out).visits[i]? = some ⟨q, some rest'⟩ :=
  List.getElem?_set_self (List.getElem?_eq_some_iff.1 h).1

/-- A call does not go on for ever, whatever it is answered. -/
theorem acc_goes {α : Type} (rest : Call α) :
    Acc (fun after before => ∃ finds out, Call.Goes finds before after out) rest := by
  induction rest with
  | done a => exact ⟨_, fun after ⟨_, _, hs⟩ => nomatch hs⟩
  | get key next ih => exact ⟨_, fun after ⟨_, _, hs⟩ => by cases hs; exact ih _⟩
  | delete key next ih => exact ⟨_, fun after ⟨_, _, hs⟩ => by cases hs; exact ih _⟩
  | count k ns next ih => exact ⟨_, fun after ⟨_, _, hs⟩ => by cases hs; exact ih⟩
  | submit t next ih =>
    refine ⟨_, fun after ⟨_, _, hs⟩ => ?_⟩
    cases hs with
    | submit => exact ih true
    | shed => exact ih false
  | consult q next ih => exact ⟨_, fun after ⟨_, _, hs⟩ => by cases hs; exact ih _⟩

/-- A call comes to its end if it is let go on. -/
theorem exists_returned (c : CacheConfig) (h : w.visits[i]? = some ⟨q, some rest⟩) :
    ∃ w' a, Steps c w w' ∧ .returned i ⟨q, a⟩ ∈ w'.log := by
  -- after one step of the call the rest of it is let go on
  have hfirst : ∀ {w : Traffic} {rest rest' : Call (Except StoreError q.Value)} {out : Outcome},
      w.visits[i]? = some ⟨q, some rest⟩ → rest.Goes w.Finds rest' out →
      (∀ v : Traffic, v.visits[i]? = some ⟨q, some rest'⟩ →
        ∃ w' a, Steps c v w' ∧ .returned i ⟨q, a⟩ ∈ w'.log) →
      ∃ w' a, Steps c w w' ∧ .returned i ⟨q, a⟩ ∈ w'.log := by
    intro w rest rest' out h hs hrest
    obtain ⟨w', a, hsteps, hmem⟩ := hrest _ (visits_gone h)
    exact ⟨w', a, .head (.calls h hs) hsteps, hmem⟩
  induction rest generalizing w with
  | done a => exact ⟨w.back i q a, a, .single (.returns h), by simp [back]⟩
  | get key next ih => exact hfirst h (.get (.inl rfl)) fun v hv => ih _ hv
  | delete key next ih => exact hfirst h (.delete (.ok ())) fun v hv => ih _ hv
  | count k ns next ih => exact hfirst h .count fun v hv => ih hv
  | submit t next ih => exact hfirst h .submit fun v hv => ih _ hv
  | consult q' next ih => exact hfirst h (.consult (.error .timeout)) fun v hv => ih _ hv

theorem gone_gone (w : Traffic) (rest rest' : Call (Except StoreError q.Value))
    (first second : Outcome) :
    (w.gone i q rest first).gone i q rest' second =
      w.gone i q rest' ⟨first.sent ++ second.sent, first.queued ++ second.queued,
        first.answers ++ second.answers⟩ := by
  simp [gone, List.set_set]

/-- A call goes on from where it has come to. -/
theorem Steps.goes {after : Call (Except StoreError q.Value)} {first second : Outcome}
    (h : Steps c w (w.gone i q rest first)) (hi : i < w.visits.length)
    (hs : rest.Goes (w.gone i q rest first).Finds after second) :
    Steps c w (w.gone i q after ⟨first.sent ++ second.sent, first.queued ++ second.queued,
      first.answers ++ second.answers⟩) := by
  rw [← gone_gone w rest after first second]
  exact h.tail (.calls (List.getElem?_set_self hi) hs)

variable {o : CachedRead} {f : o.Filter} {v : o.Value}

/-- A call that finds an entry which can be read comes back with it. -/
theorem steps_found {bytes : ByteArray}
    (h : w.visits[i]? = some ⟨.read o f, some (call c (.read o f))⟩)
    (hentry : w.entries (o.key f) = some bytes) (hread : o.ofBytes? bytes = some v) :
    Steps c w ((w.gone i (.read o f) (.done (.ok v)) {}).back i (.read o f) (.ok v)) := by
  have hi : i < w.visits.length := (List.getElem?_eq_some_iff.1 h).1
  rw [call_read] at h
  have hfinds : w.Finds (o.key f) (.ok (some bytes)) := .inl (by rw [hentry])
  have hget : (Call.readThrough c o f).Goes w.Finds (.count .hit o.ns (.done (.ok v))) {} := by
    have hnext : ∀ next : Fetched → Call (Except StoreError o.Value),
        next (.ok (some bytes)) = .count .hit o.ns (.done (.ok v)) →
          (Call.get (o.key f) next).Goes w.Finds (.count .hit o.ns (.done (.ok v))) {} :=
      fun next hv => hv ▸ .get hfinds
    apply hnext
    have hdecode : Json.Decoder.ofBytes? o.decode bytes = some v := hread
    simp only [hdecode]
  have hcount := Steps.goes (.single (.calls (c := c) h hget)) hi .count
  exact hcount.tail (.returns (visits_gone h))

/-- A call that finds no entry comes back with what the store answers, which is
submitted to be kept. -/
theorem steps_missing (v : o.Value) (h : w.visits[i]? = some ⟨.read o f, some (call c (.read o f))⟩)
    (hentry : w.entries (o.key f) = none) :
    Steps c w ((w.gone i (.read o f) (.done (.ok v))
      ⟨[], [(o.task c f v).job], [⟨.read o f, .ok v⟩]⟩).back i (.read o f) (.ok v)) := by
  have hi : i < w.visits.length := (List.getElem?_eq_some_iff.1 h).1
  rw [call_read] at h
  have hfinds : w.Finds (o.key f) (.ok none) := .inl (by rw [hentry])
  have hget : (Call.readThrough c o f).Goes w.Finds (.count .miss o.ns (Call.fetch c o f)) {} :=
    .get hfinds
  have hcount := Steps.goes (.single (.calls (c := c) h hget)) hi .count
  have hconsult := hcount.goes hi (.consult (q := .read o f) (.ok v))
  have hsubmit := hconsult.goes hi .submit
  exact hsubmit.tail (.returns (visits_gone h))

end Ways

end Traffic

/-! ## Answers and texts -/

/-- The canonical text of what was asked, if there is one. -/
def Answer.text? (a : Answer) : Option String :=
  match a.1 with
  | .read o f => o.text? f
  | _ => none

/-- The canonical text of the question of an event, if there is one. -/
def Event.text? : Event → Option String
  | .answered _ a => Answer.text? a
  | .returned _ a => Answer.text? a

/-- What was served was an answer of the store for the same text, if digests
tell the texts apart and doubles are read back from theirs. -/
theorem Served.recalled {log : List Event} {a : Answer} (h : Served log a)
    (hdigest : ∀ i b, .answered i b ∈ log → ∀ s ∈ Answer.text? b, ∀ t ∈ Answer.text? a,
      Digest.sha256Hex s = Digest.sha256Hex t → s = t)
    (hdouble : ∀ i o f v, .answered i ⟨.read o f, .ok v⟩ ∈ log → (o.toJson v).ReadsBack) :
    Recalled log a := by
  obtain ⟨o, f, v, bytes, rfl, hheld, hread⟩ := h
  rcases hheld with (⟨i, o', g, v', hmem, hkey, hbytes⟩ | ⟨id, names, hkey, -⟩) | hunreadable
  · obtain rfl : o' = o := CachedRead.ns_injective (Namespace.key_inj.1 hkey).1
    have hvalue : v = v' := by
      rw [← hbytes] at hread
      exact CachedRead.eq_of_ofBytes?_encoded (hdouble i o' g v' hmem) hread
    refine ⟨i, o', f, g, v, rfl, hvalue ▸ hmem, ?_⟩
    exact CachedRead.text?_eq_of_key_eq hkey (hdigest i _ hmem)
  · exact absurd hkey.symm (CachedRead.key_ne_indexKey o f id)
  · rw [hunreadable o f rfl] at hread
    cases hread

open Traffic in
/-- Every call that has returned had its answer from the store, which it asked
once, or it did not ask and the store had given that value to an earlier call
of the same read for the same text. What is written are answers that are no
errors and lists of fingerprints, and nothing else that can be read is ever in
the backend. A call that has not returned can go on to its end, and does not go
on for ever. Of the texts of the run no two are taken to have one digest, and
the doubles of its answers are taken to be read back. -/
theorem reads_through {c : CacheConfig} {w : Traffic} (h : Reachable c w)
    (hdigest : Set.InjOn Digest.sha256Hex {s | ∃ e ∈ w.log, s ∈ e.text?})
    (hdouble : ∀ i o f v, .answered i ⟨.read o f, .ok v⟩ ∈ w.log → (o.toJson v).ReadsBack) :
    (∀ k i a, w.log[k]? = some (.returned i a) →
      heard i (w.log.take k) = [a] ∨ (heard i (w.log.take k) = [] ∧ Recalled (w.log.take k) a)) ∧
    (∀ key bytes, (key, some bytes) ∈ w.sent → Genuine w.log key bytes) ∧
    (∀ key bytes, w.entries key = some bytes → Genuine w.log key bytes ∨ Unreadable key bytes) ∧
    ∀ (i : ℕ) (q : Question) (rest : Call (Except StoreError q.Value)),
      w.visits[i]? = some ⟨q, some rest⟩ →
        (∃ w' a, Steps c w w' ∧ .returned i ⟨q, a⟩ ∈ w'.log) ∧
          Acc (fun after before => ∃ finds out, Call.Goes finds before after out) rest := by
  have hsafe := Safe.of_reachable h
  refine ⟨?_, hsafe.sent, hsafe.entries, fun i q rest hi => ⟨exists_returned c hi, acc_goes rest⟩⟩
  intro k i a hk
  have htake : w.log.take k ⊆ w.log := List.take_subset k w.log
  refine (hsafe.returned k i a hk).imp_right fun hserved => ⟨hserved.1, ?_⟩
  refine hserved.2.recalled ?_ fun j o f v hmem => hdouble j o f v (htake hmem)
  intro j b hb s hs t ht heq
  exact hdigest ⟨_, htake hb, hs⟩ ⟨_, List.mem_of_getElem? hk, ht⟩ heq

namespace Traffic

/-- A page that is read back is asked for twice, and the store is asked once:
the first answer is kept before the second call begins. -/
theorem exists_served_again (c : CacheConfig) {f : CachedRead.Filter .pages}
    {page : CachedRead.Value .pages}
    (hread : CachedRead.pages.ofBytes? (CachedRead.pages.encoded page) = some page) :
    ∃ w, Reachable c w ∧ w.log = [.answered 0 ⟨.read .pages f, .ok page⟩,
      .returned 0 ⟨.read .pages f, .ok page⟩, .returned 1 ⟨.read .pages f, .ok page⟩] := by
  let q : Question := .read .pages f
  let job := Job.store .posts (CachedRead.pages.key f) (CachedRead.pages.encoded page) c.postsTtl
  have hasked : Reachable c { start with visits := [⟨q, some (call c q)⟩] } := .single (.asks q)
  have hmissing := hasked.trans (steps_missing (i := 0) page rfl rfl)
  have hset := hmissing.tail (.works (show _ = [] ++ job :: [] from rfl) (.set (.ok ())))
  have hkept := hset.tail (.lands (List.mem_append_right _ List.mem_cons_self))
  have hsecond := hkept.tail (.asks q)
  have hfound := hsecond.trans (steps_found (i := 1) rfl (Function.update_self _ _ _) hread)
  exact ⟨_, hfound, rfl⟩

end Traffic

theorem PostPage.readsBack_dusk : PostPage.dusk.toJson.ReadsBack := returns_dusk.readsBack

/-- The first page that is asked for twice is served the second time. -/
theorem dusk_served_again : ∃ w : Traffic, w.Reachable {} ∧
    Set.InjOn Digest.sha256Hex {s | ∃ e ∈ w.log, s ∈ e.text?} ∧
    (∀ i o f v, .answered i ⟨.read o f, .ok v⟩ ∈ w.log → (o.toJson v).ReadsBack) ∧
    w.log[2]? = some (.returned 1 ⟨.read .pages PostFilter.everything, .ok PostPage.dusk⟩) ∧
    heard 1 (w.log.take 2) = [] ∧
    Recalled (w.log.take 2) ⟨.read .pages PostFilter.everything, .ok PostPage.dusk⟩ := by
  have hread : CachedRead.pages.ofBytes? (CachedRead.pages.encoded PostPage.dusk) =
      some PostPage.dusk :=
    (CachedRead.ofBytes?_encoded (o := .pages) PostPage.readsBack_dusk).trans
      (if_pos (by decide +kernel))
  obtain ⟨w, hw, hlog⟩ := Traffic.exists_served_again {} (f := PostFilter.everything) hread
  have hdigest : Set.InjOn Digest.sha256Hex {s | ∃ e ∈ w.log, s ∈ e.text?} := by
    rintro s ⟨e, he, hs⟩ t ⟨e', he', ht⟩ -
    have htext : ∀ e ∈ w.log, e.text? = CachedRead.text? .pages PostFilter.everything := by
      rw [hlog]
      intro e he
      simp only [List.mem_cons, List.not_mem_nil, or_false] at he
      rcases he with rfl | rfl | rfl <;> rfl
    rw [htext e he] at hs
    rw [htext e' he'] at ht
    exact Option.mem_unique hs ht
  have hdouble : ∀ i o f v, .answered i ⟨.read o f, .ok v⟩ ∈ w.log → (o.toJson v).ReadsBack := by
    rw [hlog]
    intro i o f v hmem
    simp only [List.mem_cons, reduceCtorEq, List.not_mem_nil, or_false] at hmem
    cases hmem
    exact PostPage.readsBack_dusk
  obtain ⟨hreturned, -⟩ := reads_through hw hdigest hdouble
  have hthird : w.log[2]? =
      some (.returned 1 ⟨.read .pages PostFilter.everything, .ok PostPage.dusk⟩) := by
    rw [hlog]
    rfl
  have hheard : heard 1 (w.log.take 2) = [] := by
    rw [hlog]
    rfl
  refine ⟨w, hw, hdigest, hdouble, hthird, hheard, ?_⟩
  rcases hreturned 2 1 _ hthird with hasked | ⟨-, hrecalled⟩
  · rw [hheard] at hasked
    cases hasked
  · exact hrecalled

end FilmCatalog
