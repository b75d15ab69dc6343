import FilmCatalog.Proofs.Cache.ReadThrough
import FilmCatalog.Proofs.Cache.Rest

/-!
# A warm cache

What a second listing costs. The first one finds nothing, asks the store, and
leaves a task in an idle pool that keeps the answer. Whatever the background
then does, in whatever order, the task waits alone or the answer is the entry
used last (`CacheSystem.Keeping`), so a drained pool has kept it even where
there is room for one entry only. The second listing has it from there and asks
nobody.

The backend's calls take no time here and do not fail, as those of the memory
backend; the clock may go on up to the end of the entry.

Key definitions: `CacheSlot`, `CacheLayer.readThrough`, `CacheSystem.looked`,
`CacheSystem.filled`, `CacheSystem.Keeping`, `CacheSystem.Refilled`.
Key theorems: `CacheSystem.run_readThrough_of_missed`, `CacheSystem.Keeping.works`,
`CacheSystem.Refilled.run_readThrough`.
-/

namespace FilmCatalog

/-! ## What is put can be got -/

theorem expiry?_eq_some {now ttl ends : ℕ} (h : expiry? now ttl = some ends) :
    ends = now + ttl * second := by
  rw [expiry?] at h
  split at h
  · exact (Option.some.inj h).symm
  · cases h

/-- An entry that was put is there until its end. -/
theorem MemoryStore.get_put (s : MemoryStore) (key : String) {e : CacheEntry} {now : ℕ}
    (h : now < e.expiresAt) : ((s.put key e).get now key).1 = some e.value := by
  have hfind : (s.put key e).find? key = some e := by
    simp [MemoryStore.find?, MemoryStore.put]
  rw [MemoryStore.get, hfind]
  simp only [if_pos h]

namespace Probe

variable {p : Probe} {key : String} {value : ByteArray} {ttl ends : ℕ}

/-- Whether a value can be set at once, to be readable until some time. -/
structure Accepts (p : Probe) (key : String) (ttl ends : ℕ) : Prop where
  set : p.fails .set key = false
  atOnce : p.delay .set = 0
  ends : expiry? p.clock ttl = some ends

/-- The probe after a change that succeeds. -/
def kept (p : Probe) (key : String) (value : ByteArray) (ttl ends : ℕ) : Probe :=
  { p.record (.set key value ttl) with
    store := p.store.put key ⟨value, ends⟩
    keysSet := key :: p.keysSet }

theorem Accepts.set_eq (h : p.Accepts key ttl ends) :
    p.set key value ttl = (some (.ok ()), p.kept key value ttl ends) := by
  have hraw : (p.record (.set key value ttl)).rawSet? key value ttl =
      some (p.kept key value ttl ends) := by
    show Option.map _ (Option.map _ (expiry? p.clock ttl)) = _
    rw [h.ends]
    rfl
  rw [Probe.set, h.set, if_neg Bool.false_ne_true]
  simp only [hraw]

/-- Whether calls for a key are answered at once and without fault. -/
structure Serves (p : Probe) (key : String) : Prop where
  sound : ∀ op, p.fails op key = false
  atOnce : ∀ op, p.delay op = 0

theorem get_settings (p : Probe) (key : String) :
    (p.get key).2.faults = p.faults ∧ (p.get key).2.delays = p.delays ∧
      (p.get key).2.clock = p.clock := by
  rw [Probe.get]
  split_ifs <;> exact ⟨rfl, rfl, rfl⟩

theorem Serves.congr {p' : Probe} (h : p.Serves key) (hfaults : p'.faults = p.faults)
    (hdelays : p'.delays = p.delays) : p'.Serves key where
  sound op := by
    rw [Probe.fails, hfaults]
    exact h.sound op
  atOnce op := by
    rw [Probe.delay, hdelays]
    exact h.atOnce op

theorem get_kept (hget : p.fails .get key = false) {clock : ℕ} (hclock : clock < ends) :
    (Probe.get { p.kept key value ttl ends with clock := clock } key).1 = .ok (some value) := by
  have hstill : Probe.fails { p.kept key value ttl ends with clock := clock } .get key = false :=
    hget
  rw [Probe.get, hstill, if_neg Bool.false_ne_true]
  exact congrArg Except.ok (MemoryStore.get_put p.store key hclock)

end Probe

/-! ## A read that goes through the cache -/

/-- What is kept under one key: how it is written and read, and for how many seconds. -/
structure CacheSlot (α : Type) where
  ns : Namespace
  key : String
  decode : Json.Decoder α
  encode : α → ByteArray
  ttl : ℕ

namespace CacheSlot

variable {α : Type}

/-- The task that keeps a value. -/
def task (k : CacheSlot α) (a : α) : Task :=
  ⟨k.ns, k.key, Job.store k.ns k.key (k.encode a) k.ttl⟩

/-- Whether a value is read back from its bytes. -/
def Recalls (k : CacheSlot α) (a : α) : Prop := Json.Decoder.ofBytes? k.decode (k.encode a) = some a

/-- Where the page of a filter is kept. -/
def page (c : CacheConfig) (f : PostFilter) : CacheSlot PostPage where
  ns := .posts
  key := Namespace.posts.key (Fingerprint.of f.toJson)
  decode := PostPage.decode
  encode page := page.toJson.encoded
  ttl := c.postsTtl

/-- Where the authors are kept. -/
def authors (c : CacheConfig) : CacheSlot (List String) where
  ns := .authors
  key := Namespace.authors.key authorsId
  decode := Json.Decoder.list Json.Decoder.text
  encode names := (Json.ofList .text names).encoded
  ttl := c.authorsTtl

variable {c : CacheConfig}

theorem page_recalls {page : PostPage} (hgood : page.storable = true)
    (hback : page.toJson.ReadsBack) (f : PostFilter) : (CacheSlot.page c f).Recalls page :=
  (CachedRead.ofBytes?_encoded (o := .pages) hback).trans (if_pos hgood)

theorem authors_recalls (names : List String) : (authors c).Recalls names := by
  have hback : (Json.ofList .text names).ReadsBack := by
    intro x hx
    rw [Json.ofList, Json.doubles, Json.itemDoubles_eq, List.mem_flatMap] at hx
    obtain ⟨v, hv, hx⟩ := hx
    obtain ⟨name, -, rfl⟩ := List.mem_map.1 hv
    cases hx
  exact (CachedRead.ofBytes?_encoded (o := .authors) hback).trans (if_pos rfl)

/-- One page is kept for all filters of one canonical text. -/
theorem page_congr {f g : PostFilter} (h : g.toJson.canonical = f.toJson.canonical) :
    page c g = page c f := by
  rw [page, page, Fingerprint.of, Fingerprint.of, h]

end CacheSlot

section ReadThrough
variable {n : Type → Type} [Monad n] {α : Type}

/-- A read that asks the store for what the cache does not have, and has it kept. -/
def CacheLayer.readThrough (layer : CacheLayer n) (k : CacheSlot α) (ask : ExceptT StoreError n α) :
    ExceptT StoreError n α := do
  match ← layer.lookup k.ns k.key k.decode with
  | some a => pure a
  | none =>
    let a ← ask
    discard (layer.submit (k.task a))
    pure a

theorem PostReader.cached_findPosts (inner : PostReader n) (layer : CacheLayer n) (c : CacheConfig)
    (f : PostFilter) : (inner.cached layer c).findPosts f =
      layer.readThrough (CacheSlot.page c f) (inner.findPosts f) := by
  refine bind_congr fun found => ?_
  cases found <;> rfl

theorem PostReader.cached_authors (inner : PostReader n) (layer : CacheLayer n) (c : CacheConfig) :
    (inner.cached layer c).authors = layer.readThrough (CacheSlot.authors c) inner.authors := by
  refine bind_congr fun found => ?_
  cases found <;> rfl

end ReadThrough

namespace CacheSystem

variable {α : Type}

/-- What a lookup gives and what it leaves, if backend calls take no time. -/
def looked (s : CacheSystem) (k : CacheSlot α) : Option α × CacheSystem :=
  let s' := { s with probe := (s.probe.get k.key).2 }
  match (s.probe.get k.key).1 with
  | .error _ => (none, s'.count .error k.ns)
  | .ok none => (none, s'.count .miss k.ns)
  | .ok (some bytes) =>
    match Json.Decoder.ofBytes? k.decode bytes with
    | some a => (some a, s'.count .hit k.ns)
    | none => (none, s'.count .error k.ns)

/-- Whether an answer of the store is accepted to be kept after a lookup, and
what is left then. -/
def filled (s : CacheSystem) (k : CacheSlot α) (a : α) : Bool × CacheSystem :=
  (s.looked k).2.submit (k.task a)

/-- What a read that finds nothing gives and leaves, by the answer of the store. -/
def afterMiss (s : CacheSystem) (k : CacheSlot α) :
    Except StoreError α → Except StoreError α × CacheSystem
  | .ok a => (.ok a, (s.filled k a).2)
  | .error e => (.error e, (s.looked k).2)

variable {m : Type → Type} [Monad m] [LawfulMonad m] {s : CacheSystem} {k : CacheSlot α}

omit [LawfulMonad m] in
theorem run_count (c : Counter) (ns : Namespace) (s : CacheSystem) :
    ((layer (m := m)).count c ns).run s = pure ((), s.count c ns) := rfl

omit [LawfulMonad m] in
theorem run_submit (t : Task) (s : CacheSystem) :
    ((layer (m := m)).submit t).run s = pure (s.submit t) := rfl

theorem run_lookup (hdelay : s.probe.delay .get = 0) :
    ((layer (m := m)).lookup k.ns k.key k.decode).run s = pure (s.looked k) := by
  have hget : ((layer (m := m)).get k.key).run s =
      pure ((s.probe.get k.key).1, { s with probe := (s.probe.get k.key).2 }) := by
    show pure (((s.pause (s.probe.delay .get)).probe.get k.key).1,
      { s.pause (s.probe.delay .get) with
        probe := ((s.pause (s.probe.delay .get)).probe.get k.key).2 }) = _
    rw [hdelay]
    rfl
  rw [CacheLayer.lookup, StateT.run_bind, hget, pure_bind, looked]
  rcases (s.probe.get k.key).1 with fault | _ | bytes
  · simp only [StateT.run_bind, run_count, pure_bind, StateT.run_pure]
  · simp only [StateT.run_bind, run_count, pure_bind, StateT.run_pure]
  · cases hread : Json.Decoder.ofBytes? k.decode bytes with
    | some a => simp only [hread, StateT.run_bind, run_count, pure_bind, StateT.run_pure]
    | none => simp only [hread, StateT.run_bind, run_count, pure_bind, StateT.run_pure]

variable {ask : ExceptT StoreError (StateT CacheSystem m) α}

/-- What the cache has is given without asking the store. -/
theorem run_readThrough_of_found (hdelay : s.probe.delay .get = 0) {a : α}
    (hfound : (s.looked k).1 = some a) :
    (layer.readThrough k ask).run.run s = pure (.ok a, (s.looked k).2) := by
  rw [CacheLayer.readThrough]
  simp only [ExceptT.run_bind, ExceptT.run_liftM, StateT.run_bind, StateT.run_map,
    run_lookup hdelay]
  simp [hfound]

/-- What the cache does not have is asked for once. -/
theorem run_readThrough_of_missed (hdelay : s.probe.delay .get = 0)
    (hmissed : (s.looked k).1 = none) {answer : m (Except StoreError α)}
    (hask : ∀ s, ask.run.run s = (fun a => (a, s)) <$> answer) :
    (layer.readThrough k ask).run.run s = s.afterMiss k <$> answer := by
  rw [CacheLayer.readThrough, map_eq_pure_bind]
  simp only [ExceptT.run_bind, ExceptT.run_liftM, StateT.run_bind, StateT.run_map,
    run_lookup hdelay]
  simp only [map_pure, pure_bind, hmissed, ExceptT.run_bind, StateT.run_bind, hask, bind_map_left]
  refine bind_congr fun a => ?_
  cases a with
  | ok a =>
    simp [Functor.discard, LawfulFunctor.map_const, run_submit]
    rfl
  | error e => rfl

/-! ## The task that keeps an answer -/

section Background
variable {key : String} {ns : Namespace} {label : String} {value : ByteArray} {ttl ends : ℕ}
  {before s s' : CacheSystem}

theorem wake_of_idle (h : s.pool.running = []) (id : ℕ) : s.wake id = s := by
  rw [wake, Pool.find?, h]
  rfl

theorem look_of_idle (h : s.pool.running = []) (id : ℕ) : s.look id = s := by
  rw [look, Pool.find?, h]
  rfl

/-- Without runs nobody is woken. -/
theorem fire_of_idle (h : s.pool.running = []) :
    s.fire.pool = s.pool ∧ s.fire.probe = s.probe := by
  suffices ∀ (due : List (ℕ × ℕ)) (s : CacheSystem), s.pool.running = [] →
      due.foldl (fun s t => s.wake t.2) s = s by
    rw [fire]
    simp only
    rw [this _ _ (by exact h)]
    exact ⟨rfl, rfl⟩
  intro due
  induction due with
  | nil => exact fun s _ => rfl
  | cons t rest ih =>
    intro s hs
    rw [List.foldl_cons, wake_of_idle hs]
    exact ih s hs

theorem rejoin_pool (s : CacheSystem) : s.rejoin.pool = s.pool ∧ s.rejoin.probe = s.probe := by
  rw [rejoin]
  split_ifs <;> exact ⟨rfl, rfl⟩

theorem wakeHead_pool (s : CacheSystem) :
    s.wakeHead.pool = s.pool ∧ s.wakeHead.probe = s.probe := by
  rw [wakeHead]
  split_ifs <;> exact ⟨rfl, rfl⟩

/-- Whether a task that stores a value waits alone, or has ended and the value is kept. -/
def Keeping (p : Probe) (key : String) (value : ByteArray) (ttl ends : ℕ) (s : CacheSystem) :
    Prop :=
  s.pool.running = [] ∧
    ((∃ ns label, s.pool.waiting = [⟨ns, label, Job.store ns key value ttl⟩] ∧ s.pool.pending = 1 ∧
        s.probe = p) ∨
      (s.pool.waiting = [] ∧ s.pool.pending = 0 ∧ s.probe = p.kept key value ttl ends))

variable {p : Probe}

/-- Nothing that leaves the pool and the backend alone matters. -/
theorem Keeping.congr (h : Keeping p key value ttl ends s) (hpool : s'.pool = s.pool)
    (hprobe : s'.probe = s.probe) : Keeping p key value ttl ends s' := by
  rw [Keeping, hpool, hprobe]
  exact h

/-- A value is stored without a halt. -/
theorem perform_store (h : s.probe.Accepts key ttl ends) (id : ℕ) (paid : Bool) :
    perform id (Job.store ns key value ttl) paid s =
      (.ended, { s with probe := s.probe.kept key value ttl ends }) := by
  have hnow : (paid || decide (s.probe.delay .set = 0)) = true := by
    rw [h.atOnce]
    simp
  rw [Job.store, perform]
  simp only [hnow, if_true, h.set_eq]
  rfl

/-- The end of the only run of a pool. -/
theorem endRun_alone {r : Run} (hrun : s.pool.running = [r]) (hheld : r.held = []) :
    (s.endRun r.id).pool = { s.pool with running := [], pending := s.pool.pending - 1 } ∧
      (s.endRun r.id).probe = s.probe := by
  have hfind : s.pool.find? r.id = some r := by
    rw [Pool.find?, hrun]
    simp
  have hfinish : s.pool.finish r.id =
      { s.pool with running := [], pending := s.pool.pending - 1 } := by
    rw [Pool.finish, hrun]
    simp
  rw [endRun, hfind, Option.map_some, Option.getD_some, hheld, List.foldl_nil]
  exact ⟨(rejoin_pool _).1.trans hfinish, (rejoin_pool _).2⟩

/-- The run of such a task is over when it is looked at first. -/
theorem keeping_look {r : Run} (hrun : s.pool.running = [r])
    (hrest : r.rest = Job.store ns key value ttl) (hwait : r.wait = .nothing) (hheld : r.held = [])
    (hwaiting : s.pool.waiting = []) (hpending : s.pool.pending = 1)
    (h : s.probe.Accepts key ttl ends) : Keeping s.probe key value ttl ends (s.look r.id) := by
  have hfind : s.pool.find? r.id = some r := by
    rw [Pool.find?, hrun]
    simp
  let s₁ : CacheSystem := { s with pool := s.pool.modify r.id fun r => { r with woken := false } }
  have hgo : s₁.canGoOn r = true := by rw [canGoOn, hwait]
  have hperform : perform r.id (Job.store ns key value ttl) r.paid s₁ = _ :=
    perform_store (s := s₁) h r.id r.paid
  have hrun₁ : s₁.pool.running = [{ r with woken := false }] := by
    show s.pool.running.map _ = _
    rw [hrun]
    simp
  obtain ⟨hpool, hprobe⟩ := endRun_alone (s := { s₁ with probe := s.probe.kept key value ttl ends })
    hrun₁ hheld
  rw [look, hfind]
  simp only
  rw [if_pos hgo, if_pos hwait, hrest, hperform]
  refine ⟨congrArg Pool.running hpool, .inr ⟨(congrArg Pool.waiting hpool).trans hwaiting,
    (congrArg Pool.pending hpool).trans ?_, hprobe⟩⟩
  show s.pool.pending - 1 = 0
  rw [hpending]

/-- Background work carries such a task out or leaves it where it is. -/
theorem Keeping.takeTask (h : Keeping p key value ttl ends s) (hp : p.Accepts key ttl ends) :
    Keeping p key value ttl ends s.takeTask := by
  rw [CacheSystem.takeTask]
  split
  · exact h.congr rfl rfl
  · obtain ⟨hrun, ⟨ns, label, hwaiting, hpending, rfl⟩ | ⟨hwaiting, hpending, hprobe⟩⟩ := h
    · rw [Pool.start?, hwaiting]
      obtain ⟨hpool, hprobe⟩ := wakeHead_pool { s.spend with
        pool := { s.pool with
          waiting := []
          running := s.pool.running ++ [⟨s.pool.started, ⟨ns, label, Job.store ns key value ttl⟩,
            s.now + s.pool.timeout, Job.store ns key value ttl, false, [], .nothing, false⟩]
          started := s.pool.started + 1 }
        parked := s.parked - 1
        headAtQueue := false
        timers := s.timers ++ [(s.now + s.pool.timeout, s.pool.started)] }
      have hkept := keeping_look (r := ⟨s.pool.started, ⟨ns, label, Job.store ns key value ttl⟩,
          s.now + s.pool.timeout, Job.store ns key value ttl, false, [], .nothing, false⟩)
        (by rw [hpool, hrun]; rfl) rfl rfl rfl (by rw [hpool]) (by rw [hpool]; exact hpending)
        (hprobe ▸ hp)
      rw [hprobe] at hkept
      exact hkept
    · rw [Pool.start?, hwaiting]
      exact ⟨hrun, .inr ⟨hwaiting, hpending, hprobe⟩⟩

theorem Keeping.goToQueue (h : Keeping p key value ttl ends s) (hp : p.Accepts key ttl ends) :
    Keeping p key value ttl ends s.goToQueue := by
  rw [CacheSystem.goToQueue]
  split
  · exact h.takeTask hp
  · exact takeTask (s := { s.spend with headAtQueue := true }) (h.congr rfl rfl) hp

theorem Keeping.work (h : Keeping p key value ttl ends s) (hp : p.Accepts key ttl ends)
    (hs : s.Work s') : Keeping p key value ttl ends s' := by
  cases hs with
  | @serve turn rest hready =>
    cases turn with
    | arrive => exact h.congr (rejoin_pool _).1 (rejoin_pool _).2
    | head =>
      exact goToQueue (s := { s with ready := rest, left := turnLength, headReady := false })
        (h.congr rfl rfl) hp
    | again =>
      exact takeTask (s := { s with ready := rest, headReady := false }) (h.congr rfl rfl) hp
    | resume id =>
      rw [CacheSystem.serve, look_of_idle (by exact h.1)]
      exact h.congr rfl rfl
  | turnBack _ => exact h.congr rfl rfl
  | tick time => exact h.congr rfl rfl
  | fire => exact h.congr (fire_of_idle h.1).1 (fire_of_idle h.1).2

theorem Keeping.works (h : Keeping p key value ttl ends s) (hp : p.Accepts key ttl ends)
    (hs : s.Works s') : Keeping p key value ttl ends s' := by
  induction hs with
  | refl => exact h
  | tail _ hs ih => exact ih.work hp hs

/-- A pool in which only such a task waits. -/
theorem keeping_submit (hwaiting : s.pool.waiting = []) (hrunning : s.pool.running = [])
    (hpending : s.pool.pending = 0)
    (h : (s.submit ⟨ns, label, Job.store ns key value ttl⟩).1 = true) :
    Keeping s.probe key value ttl ends (s.submit ⟨ns, label, Job.store ns key value ttl⟩).2 := by
  rw [submit] at h ⊢
  split at h
  · exact absurd h Bool.false_ne_true
  · rename_i pool hpool
    obtain ⟨-, rfl⟩ := Pool.submit?_eq_some_iff.1 hpool
    obtain ⟨hp, hprobe⟩ := wakeHead_pool { s with pool := { s.pool with
      waiting := s.pool.waiting ++ [⟨ns, label, Job.store ns key value ttl⟩]
      pending := s.pool.pending + 1 } }
    refine ⟨(congrArg Pool.running hp).trans hrunning, .inl ⟨ns, label,
      (congrArg Pool.waiting hp).trans ?_, (congrArg Pool.pending hp).trans ?_, hprobe⟩⟩
    · exact congrArg (· ++ _) hwaiting
    · exact congrArg (· + 1) hpending

end Background

/-! ## The second read -/

section Warm
variable {k : CacheSlot α} {s s' : CacheSystem} {ends : ℕ} {a : α}

/-- What a lookup leaves beside the entries. -/
theorem looked_idle (s : CacheSystem) (k : CacheSlot α) :
    (s.looked k).2.pool = s.pool ∧ (s.looked k).2.probe = (s.probe.get k.key).2 := by
  rw [looked]
  split
  · exact ⟨rfl, rfl⟩
  · exact ⟨rfl, rfl⟩
  · split <;> exact ⟨rfl, rfl⟩

theorem looked_of_get (hget : (s.probe.get k.key).1 = .ok (some (k.encode a)))
    (hrecalls : k.Recalls a) :
    (s.looked k).1 = some a ∧ (s.looked k).2.counted = (.hit, k.ns) :: s.counted := by
  rw [CacheSlot.Recalls] at hrecalls
  rw [looked, hget]
  simp only [hrecalls]
  exact ⟨trivial, rfl⟩

/-- Whether no task waits or runs. -/
structure Idle (s : CacheSystem) : Prop where
  waiting : s.pool.waiting = []
  running : s.pool.running = []
  pending : s.pool.pending = 0

/-- The system when the backend's clock has come to some time. -/
def clockAt (s : CacheSystem) (clock : ℕ) : CacheSystem :=
  { s with probe := { s.probe with clock } }

/-- Whether a system comes of an idle one that accepted to keep a value until
some time and has drained since. -/
structure Refilled (k : CacheSlot α) (a : α) (ends : ℕ) (s s' : CacheSystem) : Prop where
  idle : s.Idle
  serves : s.probe.Serves k.key
  ends : expiry? s.probe.clock k.ttl = some ends
  accepted : (s.filled k a).1 = true
  works : (s.filled k a).2.Works s'
  drained : s'.pool.pending = 0

namespace Refilled

theorem probe (h : Refilled k a ends s s') :
    s'.probe = (s.probe.get k.key).2.kept k.key (k.encode a) k.ttl ends := by
  obtain ⟨hpool, hprobe⟩ := looked_idle s k
  obtain ⟨hfaults, hdelays, hclock⟩ := s.probe.get_settings k.key
  have hstill := h.serves.congr hfaults hdelays
  have haccepts : (s.probe.get k.key).2.Accepts k.key k.ttl ends :=
    ⟨hstill.sound .set, hstill.atOnce .set, hclock ▸ h.ends⟩
  have hwaits : Keeping (s.looked k).2.probe k.key (k.encode a) k.ttl ends (s.filled k a).2 :=
    keeping_submit (hpool ▸ h.idle.waiting) (hpool ▸ h.idle.running) (hpool ▸ h.idle.pending)
      h.accepted
  rw [hprobe] at hwaits
  obtain ⟨-, ⟨_, _, -, hpending, -⟩ | ⟨-, -, hkept⟩⟩ := hwaits.works haccepts h.works
  · rw [h.drained] at hpending
    cases hpending
  · exact hkept

/-- The clock of the backend stands still while the pool works. -/
theorem clock_lt (h : Refilled k a ends s s') (httl : k.ttl ≠ 0) : s'.probe.clock < ends := by
  have hclock : s'.probe.clock = s.probe.clock := by
    rw [h.probe]
    exact (s.probe.get_settings k.key).2.2
  have hlater : s.probe.clock < s.probe.clock + k.ttl * second :=
    Nat.lt_add_of_pos_right (Nat.mul_pos (Nat.pos_of_ne_zero httl) (by decide))
  rw [hclock, expiry?_eq_some h.ends]
  exact hlater

/-- A read that comes after is served from what was kept. -/
theorem run_readThrough (h : Refilled k a ends s s') (hrecalls : k.Recalls a) {clock : ℕ}
    (hclock : clock < ends) (ask : ExceptT StoreError (StateT CacheSystem m) α) :
    ∃ s'', (layer.readThrough k ask).run.run (s'.clockAt clock) = pure (.ok a, s'') ∧
      s''.counted = (.hit, k.ns) :: s'.counted := by
  obtain ⟨hfaults, hdelays, -⟩ := s.probe.get_settings k.key
  have hbefore := h.serves.congr hfaults hdelays
  have hstill : (s'.clockAt clock).probe.Serves k.key :=
    hbefore.congr ((congrArg Probe.faults h.probe).trans rfl)
      ((congrArg Probe.delays h.probe).trans rfl)
  have hget : ((s'.clockAt clock).probe.get k.key).1 = .ok (some (k.encode a)) := by
    rw [clockAt, h.probe]
    exact Probe.get_kept (hbefore.sound .get) hclock
  obtain ⟨hfound, hcounted⟩ := looked_of_get hget hrecalls
  exact ⟨_, run_readThrough_of_found (hstill.atOnce .get) hfound, hcounted⟩

end Refilled

end Warm

end CacheSystem

open CacheSystem in
/-- Whatever a cache has and however few entries it can hold, as long as its
backend answers at once and without fault: if a filter's page is not found in it
while the pool is idle, the call asks the store, and once the answer was accepted
to be kept and the pool has drained, a call for any filter of the same canonical
text has the identical page from the cache, counts a hit and asks no store, up
to the end of the entry. The page is one that is read back: its numbers are in
range, its doubles finite and read back from their texts. So it is with the
authors, whatever they are. -/
theorem warm_cache_serves_again {m : Type → Type} [Monad m] [LawfulMonad m]
    (inner : PostReader (StateT CacheSystem m)) (c : CacheConfig) {s : CacheSystem}
    (hidle : s.Idle) :
    (∀ (f : PostFilter) (ends : ℕ), s.probe.Serves (CacheSlot.page c f).key →
      expiry? s.probe.clock c.postsTtl = some ends → (s.looked (.page c f)).1 = none →
      (∀ answer : m (Except StoreError PostPage),
        (∀ s, (inner.findPosts f).run.run s = (fun a => (a, s)) <$> answer) →
        ((inner.cached layer c).findPosts f).run.run s = s.afterMiss (.page c f) <$> answer) ∧
      ∀ (page : PostPage) (s' : CacheSystem), page.storable = true → page.toJson.ReadsBack →
        (s.filled (.page c f) page).1 = true → (s.filled (.page c f) page).2.Works s' →
        s'.pool.pending = 0 →
        (c.postsTtl ≠ 0 → s'.probe.clock < ends) ∧
        ∀ g : PostFilter, g.toJson.canonical = f.toJson.canonical → ∀ clock < ends,
          ∀ other : PostReader (StateT CacheSystem m), ∃ s'',
            ((other.cached layer c).findPosts g).run.run (s'.clockAt clock) =
              pure (.ok page, s'') ∧ s''.counted = (.hit, .posts) :: s'.counted) ∧
    (∀ ends : ℕ, s.probe.Serves (CacheSlot.authors c).key →
      expiry? s.probe.clock c.authorsTtl = some ends → (s.looked (.authors c)).1 = none →
      (∀ answer : m (Except StoreError (List String)),
        (∀ s, inner.authors.run.run s = (fun a => (a, s)) <$> answer) →
        (inner.cached layer c).authors.run.run s = s.afterMiss (.authors c) <$> answer) ∧
      ∀ (names : List String) (s' : CacheSystem),
        (s.filled (.authors c) names).1 = true → (s.filled (.authors c) names).2.Works s' →
        s'.pool.pending = 0 →
        (c.authorsTtl ≠ 0 → s'.probe.clock < ends) ∧
        ∀ clock < ends, ∀ other : PostReader (StateT CacheSystem m), ∃ s'',
          (other.cached layer c).authors.run.run (s'.clockAt clock) = pure (.ok names, s'') ∧
            s''.counted = (.hit, .authors) :: s'.counted) := by
  refine ⟨fun f ends hserves hends hmissed => ⟨fun answer hask => ?_,
    fun page s' hgood hback haccepted hs hdrained => ?_⟩,
    fun ends hserves hends hmissed => ⟨fun answer hask => ?_,
      fun names s' haccepted hs hdrained => ?_⟩⟩
  · rw [PostReader.cached_findPosts]
    exact run_readThrough_of_missed (hserves.atOnce .get) hmissed hask
  · have hrefilled : Refilled (.page c f) page ends s s' :=
      ⟨hidle, hserves, hends, haccepted, hs, hdrained⟩
    refine ⟨hrefilled.clock_lt, fun g htext clock hclock other => ?_⟩
    rw [PostReader.cached_findPosts, CacheSlot.page_congr htext]
    exact hrefilled.run_readThrough (CacheSlot.page_recalls hgood hback f) hclock _
  · rw [PostReader.cached_authors]
    exact run_readThrough_of_missed (hserves.atOnce .get) hmissed hask
  · have hrefilled : Refilled (.authors c) names ends s s' :=
      ⟨hidle, hserves, hends, haccepted, hs, hdrained⟩
    refine ⟨hrefilled.clock_lt, fun clock hclock other => ?_⟩
    rw [PostReader.cached_authors]
    exact hrefilled.run_readThrough (CacheSlot.authors_recalls names) hclock _

open CacheSystem in
/-- A cache with room for one entry gives a page again that it was without, four
hours later. -/
theorem dusk_kept_warm : ∃ s s' : CacheSystem,
    s.Idle ∧ (s.looked (.page {} .everything)).1 = none ∧
      (s.filled (.page {} .everything) .dusk).1 = true ∧
      (s.filled (.page {} .everything) .dusk).2.Works s' ∧ s'.pool.pending = 0 ∧
      s'.probe.clock < 14401 * second ∧
      ∀ other : PostReader (StateT CacheSystem Id), ∃ s'',
        ((other.cached layer {}).findPosts .everything).run.run (s'.clockAt (14400 * second)) =
          pure (.ok .dusk, s'') ∧ s''.counted = (.hit, .posts) :: s'.counted := by
  have hidle : (start 1 1 1 5000).Idle := ⟨rfl, rfl, rfl⟩
  have hserves : (start 1 1 1 5000).probe.Serves (CacheSlot.page {} .everything).key :=
    ⟨fun _ => rfl, fun _ => rfl⟩
  have hmissed : ((start 1 1 1 5000).looked (.page {} .everything)).1 = none := rfl
  have haccepted : ((start 1 1 1 5000).filled (.page {} .everything) .dusk).1 = true := rfl
  let full := ((start 1 1 1 5000).filled (.page {} .everything) .dusk).2
  have hwait : full.idle = (idleWithin 20 full).getD full := idle_eq_getD (by decide +kernel)
  have hdrained : full.idle.pool.pending = 0 := by
    rw [hwait]
    decide +kernel
  have hends : expiry? (start 1 1 1 5000).probe.clock (CacheConfig.postsTtl {}) =
      some (14401 * second) := by decide +kernel
  let inner : PostReader (StateT CacheSystem Id) :=
    ⟨fun _ => throw .timeout, fun _ => throw .timeout, throw .timeout, throw .timeout,
      fun _ => throw .timeout⟩
  obtain ⟨-, hkept⟩ := (warm_cache_serves_again inner {} hidle).1 .everything (14401 * second)
    hserves hends hmissed
  obtain ⟨hclock, hagain⟩ := hkept .dusk _ (by decide +kernel) PostPage.readsBack_dusk haccepted
    (works_idle _) hdrained
  exact ⟨_, _, hidle, hmissed, haccepted, works_idle _, hdrained, hclock (by decide),
    hagain .everything rfl (14400 * second) (by decide)⟩

end FilmCatalog
