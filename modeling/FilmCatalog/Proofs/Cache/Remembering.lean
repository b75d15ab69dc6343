import FilmCatalog.Proofs.Cache.Errand
import FilmCatalog.Proofs.Cache.Lifetime

/-!
# What an index entry comes to list

A job that lists a fingerprint for a post reads the index entry of the post and,
unless the fingerprint is there, writes the entry anew. It reads names from
whatever bytes it finds and writes names that are read back as they are; so a
call leaves an entry that lists what was listed before, in the same order, and
the fingerprint, at the end if it is new. From no entry on, any calls leave what
they were made for in the order of the first calls, each once.

The backend is the memory backend without faults. Between two calls anything may
happen that leaves the entry of the post as it can be read.

Key definitions: `IndexEntry.noted`, `Probe.stored`, `Probe.listed`, `Probe.Keeps`,
`Probe.remembered`, `CacheSystem.Lists`.
Key theorems: `IndexEntry.foldl_noted`, `CacheSystem.perform_remember`,
`Probe.Keeps.listed_remembered`, `CacheSystem.Lists.listed_eq`, `entry_lists_each_once`.
-/

namespace FilmCatalog

/-! ## Names in the order of their first calls -/

namespace IndexEntry

/-- Names and another one at their end, unless it is among them. -/
def noted (names : List String) (name : String) : List String :=
  if name ∈ names then names else names ++ [name]

theorem mem_noted_self (names : List String) (name : String) : name ∈ noted names name := by
  unfold noted
  split
  · assumption
  · exact List.mem_concat_self

theorem noted_of_mem {names : List String} {name : String} (h : name ∈ names) :
    noted names name = names :=
  if_pos h

/-- One more name at the end counts if it is not a repetition. -/
theorem eraseDups_concat (names : List String) (name : String) :
    (names ++ [name]).eraseDups = noted names.eraseDups name := by
  unfold noted
  rw [List.eraseDups_append]
  by_cases h : name ∈ names
  · simp [h, List.removeAll]
  · simp [h, List.removeAll, List.eraseDups_cons]

/-- Names that are noted one after the other, from none on, stand in the order
in which they came first, each once. -/
theorem foldl_noted (names : List String) : names.foldl noted [] = names.eraseDups := by
  induction names using List.reverseRecOn with
  | nil => rfl
  | append_singleton names name ih =>
    rw [List.foldl_append, List.foldl_cons, List.foldl_nil, ih, eraseDups_concat]

theorem read_empty : read .empty = [] := by
  have hnone : read (write []) = [] := read_write (fun _ h => absurd h List.not_mem_nil)
  have hwrite : write [] = .empty := by rfl
  rwa [hwrite] at hnone

end IndexEntry

/-! ## A backend that keeps an entry -/

/-- What is read once can be read again. -/
theorem MemoryStore.get_get (s : MemoryStore) (now : ℕ) (key : String) :
    ((s.get now key).2.get now key).1 = (s.get now key).1 := by
  cases hf : s.find? key with
  | none => rw [get_of_missing hf, get_of_missing hf]
  | some e =>
    by_cases hlive : now < e.expiresAt
    · rw [get_of_live hf hlive]
      exact MemoryStore.get_put s key hlive
    · rw [get_of_over hf hlive, get_of_missing find?_delete_self]

namespace Probe

variable {p : Probe} {key name : String} {value : ByteArray} {ttl : ℕ} {id : ℤ}

/-- What can be read under a key. -/
def stored (p : Probe) (key : String) : Option ByteArray := (p.store.get p.clock key).1

/-- The fingerprints that are listed for a post; without an entry there are none. -/
def listed (p : Probe) (id : ℤ) : List String :=
  IndexEntry.read ((p.stored (indexKey id)).getD .empty)

/-- Whether calls for a key are answered at once and without fault, and what is
set for some seconds can be read for now. -/
structure Keeps (p : Probe) (key : String) (ttl : ℕ) : Prop where
  serves : p.Serves key
  lasts : 0 < ttl
  fits : p.clock + ttl * second < clockEnd

/-- The end of what is set for some seconds now. -/
def ends (p : Probe) (ttl : ℕ) : ℕ := p.clock + ttl * second

theorem Keeps.clock_lt_ends (h : p.Keeps key ttl) : p.clock < p.ends ttl :=
  Nat.lt_add_of_pos_right (Nat.mul_pos h.lasts (by decide))

theorem Keeps.congr {p' : Probe} (h : p.Keeps key ttl) (hfaults : p'.faults = p.faults)
    (hdelays : p'.delays = p.delays) (hclock : p'.clock = p.clock) : p'.Keeps key ttl where
  serves := h.serves.congr hfaults hdelays
  lasts := h.lasts
  fits := by
    rw [hclock]
    exact h.fits

theorem Keeps.get (h : p.Keeps key ttl) : (p.get key).2.Keeps key ttl := by
  obtain ⟨hfaults, hdelays, hclock⟩ := p.get_settings key
  exact h.congr hfaults hdelays hclock

theorem Keeps.kept (h : p.Keeps key ttl) (value : ByteArray) (ends : ℕ) :
    (p.kept key value ttl ends).Keeps key ttl :=
  h.congr rfl rfl rfl

theorem Keeps.accepts (h : p.Keeps key ttl) : p.Accepts key ttl (p.ends ttl) where
  set := h.serves.sound .set
  atOnce := h.serves.atOnce .set
  ends := expiry?_of_fits h.fits le_rfl

theorem get_eq (h : p.fails .get key = false) : (p.get key).1 = .ok (p.stored key) := by
  rw [Probe.get, h, if_neg Bool.false_ne_true]
  rfl

theorem stored_get (h : p.fails .get key = false) :
    (p.get key).2.stored key = p.stored key := by
  rw [Probe.get, h, if_neg Bool.false_ne_true]
  exact MemoryStore.get_get p.store p.clock key

theorem stored_kept {ends : ℕ} (h : p.clock < ends) :
    (p.kept key value ttl ends).stored key = some value :=
  MemoryStore.get_put p.store key h

/-! ## One call -/

/-- The backend after a call that lists a name for a post. -/
def remembered (p : Probe) (id : ℤ) (name : String) (ttl : ℕ) : Probe :=
  match IndexEntry.adding? ((p.stored (indexKey id)).getD .empty) name with
  | none => (p.get (indexKey id)).2
  | some entry => (p.get (indexKey id)).2.kept (indexKey id) entry ttl (p.ends ttl)

theorem Keeps.remembered (h : p.Keeps (indexKey id) ttl) (name : String) :
    (p.remembered id name ttl).Keeps (indexKey id) ttl := by
  unfold Probe.remembered
  split
  · exact h.get
  · exact h.get.kept _ _

/-- A call leaves an entry, which lists the name besides what was listed. -/
theorem Keeps.stored_remembered (h : p.Keeps (indexKey id) ttl) (hname : IndexEntry.IsName name) :
    ∃ entry, (p.remembered id name ttl).stored (indexKey id) = some entry ∧
      IndexEntry.read entry = IndexEntry.noted (p.listed id) name := by
  unfold Probe.remembered
  cases hadd : IndexEntry.adding? ((p.stored (indexKey id)).getD .empty) name with
  | none =>
    have hmem : name ∈ p.listed id := IndexEntry.mem_read_of_adding? hadd
    rw [IndexEntry.noted_of_mem hmem, stored_get (h.serves.sound .get)]
    -- nothing is listed without an entry
    cases hstored : p.stored (indexKey id) with
    | none =>
      rw [listed, hstored, Option.getD_none, IndexEntry.read_empty] at hmem
      exact absurd hmem List.not_mem_nil
    | some entry => exact ⟨entry, rfl, by rw [listed, hstored, Option.getD_some]⟩
  | some entry =>
    have hclock : (p.get (indexKey id)).2.clock < p.ends ttl := by
      rw [(p.get_settings (indexKey id)).2.2]
      exact h.clock_lt_ends
    have hnew : name ∉ p.listed id := IndexEntry.not_mem_of_adding? hadd
    refine ⟨entry, stored_kept hclock, ?_⟩
    rw [IndexEntry.read_of_adding? hname hadd, IndexEntry.noted, if_neg hnew]
    rfl

theorem Keeps.listed_remembered (h : p.Keeps (indexKey id) ttl) (hname : IndexEntry.IsName name) :
    (p.remembered id name ttl).listed id = IndexEntry.noted (p.listed id) name := by
  obtain ⟨entry, hstored, hread⟩ := h.stored_remembered hname
  rw [listed, hstored, Option.getD_some, hread]

/-- A name that is listed already is only looked for. -/
theorem remembered_of_mem (h : name ∈ p.listed id) :
    p.remembered id name ttl = (p.get (indexKey id)).2 := by
  unfold remembered
  cases hadd : IndexEntry.adding? ((p.stored (indexKey id)).getD .empty) name with
  | none => rfl
  | some entry => exact absurd h (IndexEntry.not_mem_of_adding? hadd)

end Probe

namespace CacheSystem

variable {s t : CacheSystem} {id : ℤ} {ttl : ℕ} {names : List String}

/-- A job goes on behind a call that lists a name, whose backend is as described. -/
theorem perform_remember (h : s.probe.Keeps (indexKey id) ttl) (name : String) (run : ℕ)
    (paid : Bool) (next : Job) :
    perform run (Job.remember id name ttl next) paid s =
      perform run next false { s with probe := s.probe.remembered id name ttl } := by
  have hanswer : (s.probe.get (indexKey id)).1 = .ok (s.probe.stored (indexKey id)) :=
    Probe.get_eq (h.serves.sound .get)
  rw [Job.remember, perform, h.serves.atOnce .get, if_pos (by simp)]
  simp only [hanswer, Probe.remembered]
  cases IndexEntry.adding? ((s.probe.stored (indexKey id)).getD .empty) name with
  | none => rfl
  | some entry =>
    have hends : (s.probe.get (indexKey id)).2.ends ttl = s.probe.ends ttl := by
      rw [Probe.ends, Probe.ends, (s.probe.get_settings (indexKey id)).2.2]
    have haccepts := h.get.accepts
    rw [hends] at haccepts
    simp only [perform, haccepts.atOnce, haccepts.set_eq, decide_true, Bool.or_true, if_true]

/-! ## Any calls -/

/-- Calls that list names for a post, one after the other. -/
inductive Lists (id : ℤ) (ttl : ℕ) (s : CacheSystem) : List String → CacheSystem → Prop where
  | start : Lists id ttl s [] s
  | call {names : List String} {t : CacheSystem} (h : Lists id ttl s names t) (name : String)
      (run : ℕ) (paid : Bool) :
      Lists id ttl s (names ++ [name]) (perform run (Job.remember id name ttl .done) paid t).2
  /-- Other things happen, after which the entry of the post reads as before. -/
  | meanwhile {names : List String} {t t' : CacheSystem} (h : Lists id ttl s names t)
      (hkeeps : t'.probe.Keeps (indexKey id) ttl)
      (hsame : t'.probe.stored (indexKey id) = t.probe.stored (indexKey id)) :
      Lists id ttl s names t'

theorem Lists.keeps (h : Lists id ttl s names t) (hs : s.probe.Keeps (indexKey id) ttl) :
    t.probe.Keeps (indexKey id) ttl := by
  induction h with
  | start => exact hs
  | call _ name run paid ih =>
    rw [perform_remember ih]
    exact ih.remembered name
  | meanwhile _ hkeeps _ _ => exact hkeeps

/-- Each name is noted behind what was listed before. -/
theorem Lists.listed_eq (h : Lists id ttl s names t) (hs : s.probe.Keeps (indexKey id) ttl)
    (hnames : ∀ name ∈ names, IndexEntry.IsName name) :
    t.probe.listed id = names.foldl IndexEntry.noted (s.probe.listed id) := by
  induction h with
  | start => rfl
  | @call names t hlists name run paid ih =>
    have hbefore := ih fun other hmem => hnames other (List.mem_append_left _ hmem)
    have hname : IndexEntry.IsName name := hnames name (by simp)
    have hkeeps := hlists.keeps hs
    rw [perform_remember hkeeps, List.foldl_append, List.foldl_cons, List.foldl_nil, ← hbefore]
    exact hkeeps.listed_remembered hname
  | meanwhile _ _ hsame ih =>
    rw [← ih hnames, Probe.listed, Probe.listed, hsame]

/-- Fingerprints are names. Whatever bytes are stored for a post, a call that
lists a name leaves an entry that lists what was listed before, in the same
order, and the name, at the end if it was not listed; the same call once more
only reads. From no entry on, calls leave their names in the order of the first
calls, each once. -/
theorem entry_lists_each_once (h : s.probe.Keeps (indexKey id) ttl) :
    (∀ x : Json, IndexEntry.IsName (Fingerprint.of x)) ∧
    (∀ name, IndexEntry.IsName name → ∀ run paid next, ∃ s' entry,
      perform run (Job.remember id name ttl next) paid s = perform run next false s' ∧
      s'.probe.stored (indexKey id) = some entry ∧
      name ∈ IndexEntry.read entry ∧
      (IndexEntry.read entry =
        if name ∈ s.probe.listed id then s.probe.listed id else s.probe.listed id ++ [name]) ∧
      ∀ run' paid' next',
        perform run' (Job.remember id name ttl next') paid' s' =
          perform run' next' false { s' with probe := (s'.probe.get (indexKey id)).2 }) ∧
    (s.probe.stored (indexKey id) = none →
      ∀ names t, (∀ name ∈ names, IndexEntry.IsName name) → Lists id ttl s names t →
        t.probe.listed id = names.eraseDups) := by
  refine ⟨isName_fingerprint, fun name hname run paid next => ?_,
    fun hnone names t hnames hlists => ?_⟩
  · obtain ⟨entry, hstored, hread⟩ := h.stored_remembered hname
    have hmem : name ∈ IndexEntry.read entry := by
      rw [hread]
      exact IndexEntry.mem_noted_self _ _
    refine ⟨_, entry, perform_remember h name run paid next, hstored, hmem, hread,
      fun run' paid' next' => ?_⟩
    have hlisted : name ∈ (s.probe.remembered id name ttl).listed id := by
      rw [h.listed_remembered hname]
      exact IndexEntry.mem_noted_self _ _
    have hagain : (s.probe.remembered id name ttl).Keeps (indexKey id) ttl := h.remembered name
    rw [perform_remember (s := { s with probe := s.probe.remembered id name ttl }) hagain]
    simp only [Probe.remembered_of_mem hlisted]
  · have hempty : s.probe.listed id = [] := by
      rw [Probe.listed, hnone, Option.getD_none, IndexEntry.read_empty]
    rw [hlists.listed_eq h hnames, hempty, IndexEntry.foldl_noted]

/-- A system with some bytes as the index entry of post 7. -/
def holding (entry : ByteArray) : CacheSystem :=
  { fresh with probe :=
    { fresh.probe with store := fresh.probe.store.put (indexKey 7) ⟨entry, clockEnd⟩ } }

theorem fresh_keeps : fresh.probe.Keeps (indexKey 7) 60 := ⟨fresh_serves _, by decide, by decide⟩

theorem holding_keeps (entry : ByteArray) : (holding entry).probe.Keeps (indexKey 7) 60 :=
  fresh_keeps.congr rfl rfl rfl

theorem listed_holding (entry : ByteArray) :
    (holding entry).probe.listed 7 = IndexEntry.read entry := by
  have hclock : fresh.probe.clock < clockEnd := by decide
  have hstored : (holding entry).probe.stored (indexKey 7) = some entry :=
    MemoryStore.get_put fresh.probe.store (indexKey 7) hclock
  rw [Probe.listed, hstored, Option.getD_some]

/-- Empty parts are dropped and bytes that are no text list nothing when a name
is added; without an entry a repeated name is listed once. -/
theorem litter_is_tidied :
    (∃ s' entry, perform 0 (Job.remember 7 "b" 60 .done) false (holding ";;a;".toUTF8) =
        (.ended, s') ∧
      s'.probe.stored (indexKey 7) = some entry ∧ IndexEntry.read entry = ["a", "b"]) ∧
    (∃ s' entry, perform 0 (Job.remember 7 "b" 60 .done) false (holding ⟨#[0xC3, 0x28]⟩) =
        (.ended, s') ∧
      s'.probe.stored (indexKey 7) = some entry ∧ IndexEntry.read entry = ["b"]) ∧
    ∃ t, Lists 7 60 fresh ["b", "a", "b"] t ∧ t.probe.listed 7 = ["b", "a"] := by
  have hname : IndexEntry.IsName "b" := ⟨by decide, by decide⟩
  have hcall : ∀ bytes, "b" ∉ IndexEntry.read bytes → ∃ s' entry,
      perform 0 (Job.remember 7 "b" 60 .done) false (holding bytes) = (.ended, s') ∧
      s'.probe.stored (indexKey 7) = some entry ∧
      IndexEntry.read entry = IndexEntry.read bytes ++ ["b"] := by
    intro bytes hnew
    obtain ⟨s', entry, hperform, hstored, -, hread, -⟩ :=
      (entry_lists_each_once (holding_keeps bytes)).2.1 "b" hname 0 false .done
    rw [listed_holding, if_neg hnew] at hread
    exact ⟨s', entry, hperform, hstored, hread⟩
  have hparts : IndexEntry.read ";;a;".toUTF8 = ["a"] := by rfl
  have hbroken : IndexEntry.read ⟨#[0xC3, 0x28]⟩ = [] := by rfl
  refine ⟨?_, ?_, ?_⟩
  · have htidied := hcall ";;a;".toUTF8
    rw [hparts] at htidied
    exact htidied (by decide)
  · have htidied := hcall ⟨#[0xC3, 0x28]⟩
    rw [hbroken] at htidied
    exact htidied (by decide)
  · have hlists : Lists 7 60 fresh ["b", "a", "b"] _ :=
      ((Lists.start.call "b" 0 false).call "a" 1 false).call "b" 2 true
    have hnames : ∀ name ∈ ["b", "a", "b"], IndexEntry.IsName name := by
      intro name hmem
      simp only [List.mem_cons, List.not_mem_nil, or_false] at hmem
      rcases hmem with rfl | rfl | rfl
      · exact hname
      · exact ⟨by decide, by decide⟩
      · exact hname
    exact ⟨_, hlists, (entry_lists_each_once fresh_keeps).2.2 rfl _ _ hnames hlists⟩

end CacheSystem
end FilmCatalog
