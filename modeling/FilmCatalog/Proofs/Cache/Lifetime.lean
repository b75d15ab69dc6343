import FilmCatalog.Proofs.Cache.Leftover
import FilmCatalog.Proofs.Cache.Recency
import FilmCatalog.Proofs.Cache.Warm
import FilmCatalog.Proofs.Settings.Resolved

/-!
# Times to live that the clock can hold

An entry can be kept if the clock reaches its end. Settings are accepted whatever
their times to live, as long as these are positive, so it is not the settings alone
that decide: up to some time of the clock all write-backs succeed exactly if the
longest time to live still ends before the clock does (`CacheConfig.Fits`). Then no
job of theirs panics, at whatever moment and with whatever answers it goes on, and
what was kept can be read until its end, unless it is set again, deleted or pushed
out. A time to live beyond makes every job that keeps a value panic and keeps nothing.

Key definitions: `CacheConfig.Fits`, `CacheConfig.WriteBack`, `Job.Lasts`,
`CacheSystem.Panics`, `MemoryStore.Spares`.
Key theorems: `CacheSystem.perform_ne_panicked`, `CacheSystem.not_panics_of_fits`,
`MemoryStore.Spares.find?_eq`, `CacheSystem.lifetimes_must_fit`.
-/

namespace FilmCatalog

/-! ## Ends -/

theorem expiry?_of_fits {clock now ttl : ℕ} (h : clock + ttl * second < clockEnd)
    (hnow : now ≤ clock) : expiry? now ttl = some (now + ttl * second) :=
  if_pos (by omega)

theorem expiry?_of_beyond {now ttl : ℕ} (h : clockEnd ≤ now + ttl * second) :
    expiry? now ttl = none :=
  if_neg (not_lt.2 h)

namespace CacheConfig

/-- Whether everything that is kept up to some time ends before the clock does. -/
def Fits (c : CacheConfig) (clock : ℕ) : Prop :=
  ∀ ttl ∈ c.lifetimes, clock + ttl * second < clockEnd

instance (c : CacheConfig) (clock : ℕ) : Decidable (c.Fits clock) :=
  inferInstanceAs (Decidable (∀ ttl ∈ c.lifetimes, _))

/-- The tasks that change what the caches hold, for all keys and values. -/
inductive WriteBack (c : CacheConfig) : Task → Prop
  | store (ns : Namespace) (label key : String) (value : ByteArray) {ttl : ℕ}
      (httl : ttl ∈ c.lifetimes) : WriteBack c ⟨ns, label, Job.store ns key value ttl⟩
  | keep (ns : Namespace) (label fingerprint : String) (value : ByteArray) (ids : List ℤ) :
      WriteBack c
        ⟨ns, label, Job.keepResult fingerprint value ids c.similarTtl c.similarIdsTtl⟩
  | purge (ns : Namespace) (label : String) (id : ℤ) : WriteBack c ⟨ns, label, Job.purge id⟩

/-- What reads that go through the cache submit are such tasks. -/
theorem writeBack_page (c : CacheConfig) (f : PostFilter) (page : PostPage) :
    c.WriteBack ((CacheSlot.page c f).task page) :=
  .store _ _ _ _ (by simp [lifetimes, CacheSlot.page])

theorem writeBack_authors (c : CacheConfig) (names : List String) :
    c.WriteBack ((CacheSlot.authors c).task names) :=
  .store _ _ _ _ (by simp [lifetimes, CacheSlot.authors])

theorem writeBack_index (c : CacheConfig) (t : IndexTask) : c.WriteBack (t.task c) := by
  cases t with
  | keep f posts => exact .keep _ _ _ _ _
  | forget id => exact .purge _ _ _

end CacheConfig

/-! ## Jobs that do not panic -/

namespace Job

variable {clock : ℕ}

/-- Whether a job does not panic whatever it is answered, if all its calls are made by
some time. -/
def Lasts (clock : ℕ) : Job → Prop
  | .done => True
  | .panic => False
  | .lock _ next => next.Lasts clock
  | .get _ next => ∀ answer, (next answer).Lasts clock
  | .set _ _ ttl next => clock + ttl * second < clockEnd ∧ ∀ answer, (next answer).Lasts clock
  | .delete _ next => ∀ answer, (next answer).Lasts clock
  | .count _ _ next => next.Lasts clock
  | .sleep _ next => next.Lasts clock
  | .gate _ next => next.Lasts clock

theorem inherited_lasts (clock : ℕ) : Inherited (Lasts clock) where
  lock h := h
  get h := h
  set h := h.2
  delete h := h
  count h := h
  sleep h := h
  gate h := h

theorem lasts_store (ns : Namespace) (key : String) (value : ByteArray) {ttl : ℕ}
    (h : clock + ttl * second < clockEnd) : (Job.store ns key value ttl).Lasts clock := by
  refine ⟨h, fun answer => ?_⟩
  cases answer <;> trivial

theorem lasts_lockAll (stripes : List ℕ) {next : Job} (h : next.Lasts clock) :
    (Job.lockAll stripes next).Lasts clock := by
  induction stripes with
  | nil => exact h
  | cons i rest ih => exact ih

theorem lasts_remember (id : ℤ) (fingerprint : String) {ttl : ℕ}
    (httl : clock + ttl * second < clockEnd) {next : Job} (h : next.Lasts clock) :
    (Job.remember id fingerprint ttl next).Lasts clock := by
  rw [remember, Lasts]
  rintro (fault | found)
  · exact h
  · dsimp only
    split
    · exact h
    · refine ⟨httl, fun answer => ?_⟩
      cases answer <;> exact h

theorem lasts_remove (ns : Namespace) (key : String) {next : Job} (h : next.Lasts clock) :
    (Job.remove ns key next).Lasts clock := by
  intro answer
  cases answer <;> exact h

theorem lasts_keepResult (fingerprint : String) (value : ByteArray) (ids : List ℤ)
    {ttl indexTtl : ℕ} (httl : clock + ttl * second < clockEnd)
    (hindex : clock + indexTtl * second < clockEnd) :
    (Job.keepResult fingerprint value ids ttl indexTtl).Lasts clock := by
  have hlist : (ids.foldr (fun id next => Job.remember id fingerprint indexTtl next) .done).Lasts
      clock := by
    induction ids with
    | nil => trivial
    | cons id rest ih => exact lasts_remember id fingerprint hindex ih
  refine lasts_lockAll _ ⟨httl, fun answer => ?_⟩
  cases answer with
  | error fault => trivial
  | ok _ => exact hlist

theorem lasts_purge (id : ℤ) : (Job.purge id).Lasts clock := by
  refine lasts_lockAll _ fun answer => ?_
  match answer with
  | .error _ => trivial
  | .ok none => trivial
  | .ok (some entry) =>
    show Lasts clock (List.foldr _ _ (IndexEntry.read entry))
    induction IndexEntry.read entry with
    | nil => exact lasts_remove _ _ trivial
    | cons fingerprint rest ih => exact lasts_remove _ _ ih

end Job

theorem CacheConfig.WriteBack.lasts {c : CacheConfig} {clock : ℕ} (h : c.Fits clock) {t : Task}
    (ht : c.WriteBack t) : t.job.Lasts clock := by
  cases ht with
  | store ns label key value httl => exact Job.lasts_store ns key value (h _ httl)
  | keep ns label fingerprint value ids =>
    exact Job.lasts_keepResult fingerprint value ids (h _ (by simp [lifetimes]))
      (h _ (by simp [lifetimes]))
  | purge ns label id => exact Job.lasts_purge id

/-! ## Systems that do not panic -/

namespace Probe

variable {p : Probe} {key : String} {value : ByteArray} {ttl : ℕ}

theorem rawSet?_clock {q : Probe} (h : p.rawSet? key value ttl = some q) : q.clock = p.clock := by
  rw [Probe.rawSet?, Option.map_eq_some_iff] at h
  obtain ⟨store, -, rfl⟩ := h
  rfl

theorem set_clock : (p.set key value ttl).2.clock = p.clock := by
  rw [Probe.set]
  split_ifs
  · rfl
  · rcases Option.eq_none_or_eq_some ((p.record (.set key value ttl)).rawSet? key value ttl) with
      hraw | ⟨q, hraw⟩
    · simp only [hraw]
      rfl
    · simp only [hraw]
      exact rawSet?_clock (p := p.record _) hraw

theorem delete_clock : (p.delete key).2.clock = p.clock := by
  rw [Probe.delete]
  split_ifs <;> rfl

/-- Setting has an answer if the clock reaches the end of the entry. -/
theorem set_isSome (h : p.clock + ttl * second < clockEnd) : (p.set key value ttl).1.isSome := by
  rw [Probe.set]
  split_ifs
  · rfl
  · have hraw : ((p.record (.set key value ttl)).rawSet? key value ttl).isSome := by
      show (Option.map _ (Option.map _ (expiry? p.clock ttl))).isSome
      rw [expiry?_of_fits h le_rfl]
      rfl
    obtain ⟨q, hq⟩ := Option.isSome_iff_exists.1 hraw
    simp only [hq]
    rfl

/-- Setting has no answer and changes no entry if the clock does not reach the end. -/
theorem set_of_beyond (h : clockEnd ≤ p.clock + ttl * second) (hserves : p.Serves key) :
    p.set key value ttl = (none, p.record (.set key value ttl)) := by
  have hraw : (p.record (.set key value ttl)).rawSet? key value ttl = none := by
    show Option.map _ (Option.map _ (expiry? p.clock ttl)) = _
    rw [expiry?_of_beyond h]
    rfl
  rw [Probe.set, hserves.sound, if_neg Bool.false_ne_true]
  simp only [hraw]

end Probe

namespace CacheSystem

variable {s : CacheSystem} {clock id : ℕ}

/-- A job that lasts does not panic when it goes on. -/
theorem perform_ne_panicked {job : Job} (h : job.Lasts clock) (hclock : s.probe.clock ≤ clock)
    (paid : Bool) : (perform id job paid s).1 ≠ .panicked := by
  induction job generalizing paid s with
  | done => exact Halt.noConfusion
  | panic => exact h.elim
  | lock i next ih =>
    rw [perform]
    split_ifs
    · exact Halt.noConfusion
    · exact ih h (s := s.spend.hold id i) hclock false
    · exact Halt.noConfusion
  | get key next ih =>
    rw [perform]
    split_ifs
    · exact ih _ (h _) ((s.probe.get_settings key).2.2.trans_le hclock) false
    · exact Halt.noConfusion
  | set key value ttl next ih =>
    rw [perform]
    split_ifs
    · have hsome : (s.probe.set key value ttl).1.isSome :=
        Probe.set_isSome ((Nat.add_le_add_right hclock _).trans_lt h.1)
      have hsame : (s.probe.set key value ttl).2.clock = s.probe.clock := Probe.set_clock
      split
      · rename_i answer probe heq
        rw [heq] at hsame
        exact ih _ (h.2 _) (s := { s with probe := probe }) (hsame.trans_le hclock) false
      · rename_i probe heq
        rw [heq] at hsome
        cases hsome
    · exact Halt.noConfusion
  | delete key next ih =>
    rw [perform]
    split_ifs
    · exact ih _ (h _) (Probe.delete_clock.trans_le hclock) false
    · exact Halt.noConfusion
  | count c ns next ih => exact ih h (s := s.count c ns) hclock false
  | sleep ms next ih =>
    rw [perform]
    split_ifs
    · exact Halt.noConfusion
    · exact Halt.noConfusion
    · exact ih h (s := s.spend) hclock false
  | gate name next ih =>
    rw [perform]
    split_ifs
    · exact Halt.noConfusion
    · exact ih h (s := { s.spend with openGates := s.openGates.erase name }) hclock false
    · exact Halt.noConfusion

/-- Whether some job of a system would panic if it went on over the backend as it is,
whatever else of the system has changed by then. -/
def Panics (s : CacheSystem) : Prop :=
  ∃ later : CacheSystem, later.probe = s.probe ∧
    ((∃ r ∈ s.pool.running, (perform r.id r.rest r.paid later).1 = .panicked) ∨
      ∃ t ∈ s.pool.waiting, ∃ id, (perform id t.job false later).1 = .panicked)

/-- If all entries end before the clock does, nothing panics. -/
theorem not_panics_of_fits {c : CacheConfig} (h : c.Fits clock) {capacity workers queue timeout : ℕ}
    (hs : s.Reached capacity workers queue timeout c.WriteBack) (hclock : s.probe.clock ≤ clock) :
    ¬s.Panics := by
  have hall := hs.all (Job.inherited_lasts clock) fun _ ht => ht.lasts h
  rintro ⟨later, hprobe, ⟨r, hr, hpanic⟩ | ⟨t, ht, id, hpanic⟩⟩
  · exact perform_ne_panicked (hall.stands _ (mem_stands hr)) (hprobe ▸ hclock) r.paid hpanic
  · exact perform_ne_panicked (hall.waiting t ht) (hprobe ▸ hclock) false hpanic

end CacheSystem

/-! ## Entries that stay -/

namespace MemoryStore

/-- How a call before the end of an entry may change a store without setting or deleting the
entry or pushing it out. -/
inductive Spares (key : String) (ends : ℕ) (s : MemoryStore) : MemoryStore → Prop
  | get {now : ℕ} (hnow : now < ends) (other : String) :
      Spares key ends s (s.after now (.get other))
  | contains (now : ℕ) (other : String) : Spares key ends s (s.after now (.contains other))
  | delete (now : ℕ) {other : String} (hother : key ≠ other) :
      Spares key ends s (s.after now (.delete other))
  | set (now : ℕ) {other : String} (hother : key ≠ other) (value : ByteArray) (ttl : ℕ)
      (hroom : key ∈ s.keys → key ∈ (s.after now (.set other value ttl)).keys) :
      Spares key ends s (s.after now (.set other value ttl))

variable {s t : MemoryStore} {key : String} {e : CacheEntry}

theorem Spares.find?_eq (h : s.Spares key e.expiresAt t) (hfind : s.find? key = some e) :
    t.find? key = some e := by
  cases h with
  | @get now hnow other =>
    rw [after]
    by_cases hother : key = other
    · subst hother
      rw [get_of_live hfind hnow]
      exact find?_put
    · cases hf : s.find? other with
      | none => rwa [get_of_missing hf]
      | some e' =>
        have hmem : other ∈ s.keys := isSome_find?_iff.1 (Option.isSome_iff_exists.2 ⟨e', hf⟩)
        by_cases hlive : now < e'.expiresAt
        · rw [get_of_live hf hlive]
          exact (find?_put_of_ne hother fun _ => .inl hmem).trans hfind
        · rw [get_of_over hf hlive]
          exact (find?_delete hother).trans hfind
  | contains now other => exact hfind
  | delete now hother => exact (find?_delete hother).trans hfind
  | @set now other hother value ttl hroom =>
    have hmem : key ∈ s.keys := isSome_find?_iff.1 (Option.isSome_iff_exists.2 ⟨e, hfind⟩)
    have hstays := hroom hmem
    cases hends : expiry? now ttl with
    | none =>
      rw [after, set?, hends]
      exact hfind
    | some ends =>
      rw [after_set hends] at hstays ⊢
      obtain ⟨found, hfound⟩ := Option.isSome_iff_exists.1 (isSome_find?_iff.2 hstays)
      rw [hfound, ← hfind]
      exact (find?_of_find?_put hother hfound).symm

/-- An entry that was put can be read until its end, as long as it is spared. -/
theorem get_of_spared (h : Relation.ReflTransGen (Spares key e.expiresAt) (s.put key e) t)
    {now : ℕ} (hnow : now < e.expiresAt) : (t.get now key).1 = some e.value := by
  have hfind : t.find? key = some e := by
    induction h with
    | refl => exact find?_put
    | tail _ hstep ih => exact hstep.find?_eq ih
  exact get_eq_some_iff.2 ⟨e, hfind, rfl, hnow⟩

end MemoryStore

/-! ## What is kept -/

namespace CacheSystem

variable {s : CacheSystem} {ns : Namespace} {key : String} {value : ByteArray} {ttl : ℕ}

theorem perform_store_of_fits (hserves : s.probe.Serves key)
    (h : s.probe.clock + ttl * second < clockEnd) (id : ℕ) (paid : Bool) :
    perform id (Job.store ns key value ttl) paid s = (.ended,
      { s with probe := s.probe.kept key value ttl (s.probe.clock + ttl * second) }) := by
  have haccepts : s.probe.Accepts key ttl (s.probe.clock + ttl * second) :=
    ⟨hserves.sound .set, hserves.atOnce .set, expiry?_of_fits h le_rfl⟩
  rw [Job.store, perform, haccepts.atOnce, if_pos (by simp)]
  simp only [haccepts.set_eq]
  rfl

theorem perform_store_of_beyond (hserves : s.probe.Serves key)
    (h : clockEnd ≤ s.probe.clock + ttl * second) (id : ℕ) (paid : Bool) :
    perform id (Job.store ns key value ttl) paid s =
      (.panicked, { s with probe := s.probe.record (.set key value ttl) }) := by
  rw [Job.store, perform, hserves.atOnce .set, if_pos (by simp)]
  simp only [Probe.set_of_beyond h hserves]

/-- Accepted settings keep everything up to some time exactly if their times to live end before
the clock does. Pages, authors and similar posts are kept by write-backs of the settings. -/
theorem lifetimes_must_fit {d : SettingsDraft} {settings : Settings}
    (h : d.resolve = .ok settings) (clock : ℕ) :
    ((∀ ttl ∈ settings.cache.lifetimes, ∀ now ≤ clock,
      ∃ ends, expiry? now ttl = some ends ∧ now < ends) ↔ settings.cache.Fits clock) ∧
    ((∀ f page, settings.cache.WriteBack ((CacheSlot.page settings.cache f).task page)) ∧
      (∀ names, settings.cache.WriteBack ((CacheSlot.authors settings.cache).task names)) ∧
      ∀ t : IndexTask, settings.cache.WriteBack (t.task settings.cache)) ∧
    (settings.cache.Fits clock → ∀ capacity workers queue timeout (s : CacheSystem),
      s.Reached capacity workers queue timeout settings.cache.WriteBack →
      s.probe.clock ≤ clock → ¬s.Panics) ∧
    ∀ ttl ns key value id paid (s : CacheSystem), s.probe.Serves key →
      -- before the end of the clock the value is there until its own end
      (s.probe.clock + ttl * second < clockEnd →
        ∃ s', perform id (Job.store ns key value ttl) paid s = (.ended, s') ∧
          ∀ later, Relation.ReflTransGen (MemoryStore.Spares key (s.probe.clock + ttl * second))
              s'.probe.store later →
            ∀ now < s.probe.clock + ttl * second, (later.get now key).1 = some value) ∧
      -- beyond it there is none
      (clockEnd ≤ s.probe.clock + ttl * second →
        ∃ s', perform id (Job.store ns key value ttl) paid s = (.panicked, s') ∧
          s'.probe.store = s.probe.store) := by
  have hpositive := (SettingsDraft.cache_positive h).lifetimes_pos
  refine ⟨⟨fun hends ttl httl => ?_, fun hfits ttl httl now hnow => ?_⟩,
    ⟨settings.cache.writeBack_page, settings.cache.writeBack_authors,
      settings.cache.writeBack_index⟩,
    fun hfits capacity workers queue timeout s hs hclock => not_panics_of_fits hfits hs hclock,
    fun ttl ns key value id paid s hserves => ⟨fun hfits => ?_, fun hbeyond => ?_⟩⟩
  · obtain ⟨ends, hsome, -⟩ := hends ttl httl clock le_rfl
    by_contra hbeyond
    rw [expiry?_of_beyond (not_lt.1 hbeyond)] at hsome
    cases hsome
  · have hlater : 0 < ttl * second := Nat.mul_pos (hpositive ttl httl) (by decide)
    exact ⟨_, expiry?_of_fits (hfits ttl httl) hnow, Nat.lt_add_of_pos_right hlater⟩
  · exact ⟨_, perform_store_of_fits hserves hfits id paid, fun later hspared now hnow =>
      MemoryStore.get_of_spared (e := ⟨value, s.probe.clock + ttl * second⟩) hspared hnow⟩
  · exact ⟨_, perform_store_of_beyond hserves hbeyond id paid, rfl⟩

/-- A system with the caches of default settings. -/
def fresh : CacheSystem := .start 1024 4 256 5000

theorem fresh_serves (key : String) : fresh.probe.Serves key where
  sound op := by cases op <;> rfl
  atOnce op := by cases op <;> rfl

/-- The settings of a draft that says nothing. -/
def defaultSettings : Settings where
  level := .info
  json := false
  databaseUrl := none
  maxConnections := 8
  cache := {}
  limits := {}

/-- The task that keeps an empty page of all posts. -/
def emptyPage (c : CacheConfig) : Task := (CacheSlot.page c .everything).task ⟨[], 0⟩

theorem default_lifetimes_fit :
    SettingsDraft.resolve {} = .ok defaultSettings ∧
      defaultSettings.cache.Fits (4000000000 * second) ∧
      (∃ ends, expiry? second 86400 = some ends ∧ second < ends) ∧
      ¬(fresh.submit (emptyPage defaultSettings.cache)).2.Panics ∧
      ∃ s', perform 0 (emptyPage defaultSettings.cache).job false fresh = (.ended, s') ∧
        (s'.probe.store.get (14400 * second) (emptyPage defaultSettings.cache).label).1 =
          some (PostPage.toJson ⟨[], 0⟩).encoded := by
  have hresolve : SettingsDraft.resolve {} = .ok defaultSettings := by rfl
  have hfits : defaultSettings.cache.Fits (4000000000 * second) := by decide
  have hnow : second ≤ 4000000000 * second := by decide
  obtain ⟨hiff, -, hcalm, hkept⟩ := lifetimes_must_fit hresolve (4000000000 * second)
  have hreached : (fresh.submit (emptyPage defaultSettings.cache)).2.Reached 1024 4 256 5000
      defaultSettings.cache.WriteBack :=
    .single (.submit (CacheConfig.writeBack_page _ _ _))
  refine ⟨hresolve, hfits, hiff.2 hfits 86400 (by decide) second hnow,
    hcalm hfits _ _ _ _ _ hreached hnow, ?_⟩
  obtain ⟨s', hperform, hread⟩ := (hkept 14400 .posts (emptyPage defaultSettings.cache).label
    (PostPage.toJson ⟨[], 0⟩).encoded 0 false fresh (fresh_serves _)).1 (by decide)
  exact ⟨s', hperform, hread _ .refl _ (by decide)⟩

/-- A draft with the longest time to live that 64 bits have. -/
def endlessDraft : SettingsDraft where
  cache := { postsTtl := some 18446744073709551615 }

/-- The settings of that draft. -/
def endlessSettings : Settings :=
  { defaultSettings with cache := { postsTtl := 18446744073709551615 } }

theorem endless_pages_are_lost :
    endlessDraft.resolve = .ok endlessSettings ∧ endlessSettings.cache.backend = .memory ∧
      expiry? second endlessSettings.cache.postsTtl = none ∧
      (fresh.submit (emptyPage endlessSettings.cache)).2.Panics ∧
      ∃ s', perform 0 (emptyPage endlessSettings.cache).job false fresh = (.panicked, s') ∧
        s'.probe.store.entries = [] := by
  have hbeyond : clockEnd ≤ second + endlessSettings.cache.postsTtl * second := by decide
  have hperform : perform 0 (emptyPage endlessSettings.cache).job false fresh = (.panicked, _) :=
    perform_store_of_beyond (fresh_serves _) hbeyond 0 false
  have hwaiting : emptyPage endlessSettings.cache ∈
      (fresh.submit (emptyPage endlessSettings.cache)).2.pool.waiting := List.mem_singleton_self _
  exact ⟨by rfl, rfl, expiry?_of_beyond hbeyond,
    ⟨fresh, rfl, .inr ⟨_, hwaiting, 0, congrArg Prod.fst hperform⟩⟩, _, hperform, rfl⟩

end CacheSystem
end FilmCatalog
