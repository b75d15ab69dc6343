import FilmCatalog.Cache.Memory
import FilmCatalog.Proofs.Cache.Coverage

/-!
# Index tasks while time goes by

Each entry of a store ends some time after it was set, and cannot be read any
more then. What can be read at a time is a store like any other: a worker that
makes a call sees no difference. But entries vanish from it while time goes by,
and then a result may lose its listing. It does not while every index entry
that lists the fingerprint of a result ends as late as the result, which holds
unless a write-back leaves alone an index entry that already lists its
fingerprint and ends sooner.

Key definitions: `Dated`, `Dated.readable`, `Backend.dated`, `Worker.Passes`,
`Workshop.DatedStep`, `Workshop.DatedReachable`, `Outlasting`.
Key theorems: `Worker.Step.readable`, `Covered.fades`, `Outlasting.step`,
`Workshop.DatedReachable.indexed`.
-/

namespace FilmCatalog

/-! ## Stores with a clock -/

/-- The time, what was stored, and when the entry of each key ends. -/
structure Dated where
  now : ℕ
  shelf : Shelf
  ends : String → ℕ

namespace Dated

/-- Nothing is stored. -/
def start : Dated := ⟨0, fun _ => none, fun _ => 0⟩

/-- What can be read. -/
def readable (d : Dated) : Shelf := fun key => if d.now < d.ends key then d.shelf key else none

variable {d : Dated} {key : String}

theorem readable_start : start.readable = fun _ => none := by
  funext key
  exact ite_self none

theorem readable_eq_some {found : Kept} :
    d.readable key = some found ↔ d.now < d.ends key ∧ d.shelf key = some found := by
  rw [readable, Option.ite_none_right_eq_some]

/-- What can be read later, can be read now. -/
theorem readable_of_later {later : ℕ} (h : d.now ≤ later) {found : Kept}
    (hf : readable { d with now := later } key = some found) : d.readable key = some found := by
  obtain ⟨hlt, hf⟩ := readable_eq_some.1 hf
  exact readable_eq_some.2 ⟨h.trans_lt hlt, hf⟩

/-- An entry that is set can be read if it lasts at all. -/
theorem readable_set (entry : Option Kept) {stop : ℕ} (h : d.now < stop) :
    readable ⟨d.now, Function.update d.shelf key entry, Function.update d.ends key stop⟩ =
      Function.update d.readable key entry := by
  funext other
  by_cases he : other = key
  · subst he
    simp [readable, h]
  · simp [readable, Function.update_of_ne he]

theorem readable_delete :
    readable { d with shelf := Function.update d.shelf key none } =
      Function.update d.readable key none := by
  funext other
  by_cases he : other = key
  · subst he
    simp [readable]
  · simp [readable, Function.update_of_ne he]

/-- When the entries end after a worker that has a job left has made its next call. -/
def endsAfter (d : Dated) : Job → String → ℕ
  | .set key _ ttl _ => Function.update d.ends key (d.now + ttl * second)
  | _ => d.ends

end Dated

/-- The backend that answers every call and keeps every entry until its time to
live is over, unless it is overwritten or deleted before. -/
def Backend.dated : Backend Dated where
  get d key answer after := answer = .ok ((d.readable key).map (·.value)) ∧ after = d
  set writer d key value ttl answer after := answer = .ok () ∧
    after = ⟨d.now, Function.update d.shelf key (some ⟨value, writer⟩),
      Function.update d.ends key (d.now + ttl * second)⟩
  delete d key answer after := answer = .ok () ∧
    after = { d with shelf := Function.update d.shelf key none }

/-! ## Steps -/

/-- Whether a write-back is about to leave alone the index entry of a post which
lists its fingerprint and ends before the result that it has kept. -/
structure Worker.Passes (w : Worker) (d : Dated) (f : SimilarityFilter) (id : Int) : Prop where
  task : ∃ posts, w.task = .keep f posts
  rest : ∃ next, w.rest = .get (indexKey id) next
  listed : Fingerprint.of f.toJson ∈ d.readable.listed id
  sooner : d.ends (indexKey id) < d.ends (Namespace.similar.key (Fingerprint.of f.toJson))

namespace Workshop

/-- A step of a workshop over a backend with a clock. Any time may go by between
two calls. Write-backs may leave alone an index entry that ends too soon only
for some filters and posts. -/
inductive DatedStep (c : CacheConfig) (workers : ℕ) (may : SimilarityFilter → Int → Prop)
    (s : Workshop Dated) : Workshop Dated → Prop where
  | wait {later : ℕ} (h : s.store.now ≤ later) :
      DatedStep c workers may s { s with store := { s.store with now := later } }
  | submit (t : IndexTask) :
      DatedStep c workers may s { s with waiting := s.waiting ++ [t] }
  | begin {t : IndexTask} {later : List IndexTask} (h : s.waiting = t :: later)
      (hw : s.busy.length < workers) :
      DatedStep c workers may s
        { s with waiting := later, busy := s.busy ++ [⟨t, t.job c, []⟩] }
  | work {before behind : List Worker} {w w' : Worker} {after : Dated}
      (h : s.busy = before ++ w :: behind)
      (hmay : ∀ f id, w.Passes s.store f id → may f id)
      (hs : w.Step .dated False s.taken s.store w' after) :
      DatedStep c workers may s { s with busy := before ++ w' :: behind, store := after }
  | finish {before behind : List Worker} {w : Worker} (h : s.busy = before ++ w :: behind)
      (hd : w.rest = .done) (hh : w.held = []) :
      DatedStep c workers may s { s with busy := before ++ behind }

/-- The workshops that come from one without tasks and entries. -/
def DatedReachable (c : CacheConfig) (workers : ℕ) (may : SimilarityFilter → Int → Prop)
    (s : Workshop Dated) : Prop :=
  Relation.ReflTransGen (DatedStep c workers may) ⟨[], [], Dated.start⟩ s

/-- The workshop over what can be read. -/
def readable (s : Workshop Dated) : Workshop Shelf := ⟨s.waiting, s.busy, s.store.readable⟩

end Workshop

namespace Worker.Step

variable {taken : List ℕ} {w w' : Worker} {d d' : Dated} {after : Shelf}

/-- No time goes by during a call. -/
theorem now_eq (h : w.Step .dated False taken d w' d') : d'.now = d.now := by
  cases h with
  | get h hb => rw [hb.2]
  | set h hb => rw [hb.2]
  | delete h hb => rw [hb.2]
  | cut h => exact h.elim
  | _ => rfl

theorem ends_eq (h : w.Step .dated False taken d w' d') : d'.ends = d.endsAfter w.rest := by
  cases h with
  | get h hb =>
    rw [hb.2, h]
    rfl
  | set h hb =>
    rw [hb.2, h]
    rfl
  | delete h hb =>
    rw [hb.2, h]
    rfl
  | cut h => exact h.elim
  | _ h =>
    rw [h]
    rfl

/-- A call does to what can be read what it does to a store without a clock. -/
theorem readable (h : w.Step .dated False taken d w' d')
    (hlasts : ∀ key value ttl next, w.rest = .set key value ttl next → 0 < ttl) :
    w.Step .steady False taken d.readable w' d'.readable := by
  cases h with
  | lock h hi => exact .lock h hi
  | get h hb =>
    obtain ⟨rfl, rfl⟩ := hb
    exact .get h ⟨rfl, rfl⟩
  | set h hb =>
    obtain ⟨rfl, rfl⟩ := hb
    have hstop := Nat.lt_add_of_pos_right (n := d.now)
      (Nat.mul_pos (hlasts _ _ _ _ h) (by decide : 0 < second))
    exact .set h ⟨rfl, Dated.readable_set _ hstop⟩
  | delete h hb =>
    obtain ⟨rfl, rfl⟩ := hb
    exact .delete h ⟨rfl, Dated.readable_delete⟩
  | count h => exact .count h
  | sleep h => exact .sleep h
  | gate h => exact .gate h
  | panic h => exact .panic h
  | cut h => exact h.elim
  | unlock h hi => exact .unlock h hi

/-- And the other way round. -/
theorem exists_dated (h : w.Step .steady False taken d.readable w' after)
    (hlasts : ∀ key value ttl next, w.rest = .set key value ttl next → 0 < ttl) :
    ∃ d', w.Step .dated False taken d w' d' ∧ d'.readable = after := by
  cases h with
  | lock h hi => exact ⟨d, .lock h hi, rfl⟩
  | get h hb =>
    obtain ⟨rfl, rfl⟩ := hb
    exact ⟨d, .get h ⟨rfl, rfl⟩, rfl⟩
  | set h hb =>
    obtain ⟨rfl, rfl⟩ := hb
    have hstop := Nat.lt_add_of_pos_right (n := d.now)
      (Nat.mul_pos (hlasts _ _ _ _ h) (by decide : 0 < second))
    exact ⟨_, .set h ⟨rfl, rfl⟩, Dated.readable_set _ hstop⟩
  | delete h hb =>
    obtain ⟨rfl, rfl⟩ := hb
    exact ⟨_, .delete h ⟨rfl, rfl⟩, Dated.readable_delete⟩
  | count h => exact ⟨d, .count h, rfl⟩
  | sleep h => exact ⟨d, .sleep h, rfl⟩
  | gate h => exact ⟨d, .gate h, rfl⟩
  | panic h => exact ⟨d, .panic h, rfl⟩
  | cut h => exact h.elim
  | unlock h hi => exact ⟨d, .unlock h hi, rfl⟩

end Worker.Step

/-- What a worker sets lasts as long as the settings say. -/
theorem Errand.ttl_of_set {c : CacheConfig} {e : Errand} {key : String} {value : ByteArray}
    {ttl : ℕ} {next : Changed → Job} (h : (e.worker c).rest = .set key value ttl next) :
    (∃ fingerprint, key = Namespace.similar.key fingerprint ∧ ttl = c.similarTtl) ∨
      ∃ id, key = indexKey id ∧ ttl = c.similarIdsTtl := by
  cases e with
  | locking t n =>
    rcases hnext : (stripesOf t.ids)[n]? with _ | i
    · rw [worker_locking (List.getElem?_eq_none_iff.1 hnext)] at h
      cases t with
      | keep f posts =>
        obtain ⟨rfl, -, rfl, -⟩ := Job.set.inj h
        exact .inl ⟨_, rfl, rfl⟩
      | forget id => cases h
    · rw [worker_locking_of_next hnext] at h
      cases h
  | listing f posts todo => cases todo <;> cases h
  | writing f posts id entry todo =>
    obtain ⟨rfl, -, rfl, -⟩ := Job.set.inj h
    exact .inr ⟨_, rfl, rfl⟩
  | clearing id listed => cases listed <;> cases h
  | ending t held => cases h

theorem Errand.ttl_pos {c : CacheConfig} (e : Errand) (hpos : 0 < c.similarTtl)
    (hle : c.similarTtl ≤ c.similarIdsTtl) (key : String) (value : ByteArray) (ttl : ℕ)
    (next : Changed → Job) (h : (e.worker c).rest = .set key value ttl next) : 0 < ttl := by
  rcases ttl_of_set h with ⟨-, -, rfl⟩ | ⟨-, -, rfl⟩
  · exact hpos
  · exact hpos.trans_le hle

/-! ## Entries that fade -/

/-- A worker relies on nothing that vanishes: it writes what is still listed, and
deletes the results that are left. -/
theorem Errand.Sound.fades {e : Errand} {store after : Shelf} (h : e.Sound store)
    (hl : ∀ id, Shelf.listed after id ⊆ store.listed id)
    (hr : ∀ id fingerprint, after.ResultOf id fingerprint → store.ResultOf id fingerprint) :
    e.Sound after := by
  cases e with
  | locking t n => trivial
  | listing f posts todo => exact h
  | writing f posts id entry todo => exact ⟨h.1, h.2.1, List.Subset.trans (hl id) h.2.2⟩
  | clearing id listed => exact fun fp hfp => h fp (hr id fp hfp)
  | ending t held => trivial

/-- Results stay listed while entries vanish, as long as no listing vanishes
before the result does. -/
theorem Covered.fades {c : CacheConfig} {errands : List Errand} {s : Workshop Shelf}
    {after : Shelf} (hc : Covered c errands s)
    (hl : ∀ id, Shelf.listed after id ⊆ s.store.listed id)
    (hr : ∀ fingerprint found, after (Namespace.similar.key fingerprint) = some found →
      s.store (Namespace.similar.key fingerprint) = some found)
    (hkept : ∀ id fingerprint, after.ResultOf id fingerprint →
      fingerprint ∈ s.store.listed id →
        fingerprint ∈ Shelf.listed after id ∨ ∃ e ∈ errands, e.Owes id fingerprint) :
    Covered c errands { s with store := after } where
  busy := hc.busy
  apart := hc.apart
  sound e he := (hc.sound e he).fades hl fun _ _ ⟨found, hf, hid⟩ => ⟨found, hr _ _ hf, hid⟩
  results fingerprint found hf := hc.results _ _ (hr _ _ hf)
  covered id fingerprint h := by
    obtain ⟨found, hf, hid⟩ := h
    rcases hc.covered id fingerprint ⟨found, hr _ _ hf, hid⟩ with hlisted | howed
    · exact hkept id fingerprint ⟨found, hf, hid⟩ hlisted
    · exact .inr howed

/-! ## The invariant -/

/-- Each result that can be read is listed, or a worker owes it, and then the
index entry ends as late as the result. -/
structure Outlasting (c : CacheConfig) (errands : List Errand) (s : Workshop Dated) : Prop where
  covered : Covered c errands s.readable
  /-- No result lasts longer than one that is kept now. -/
  young : ∀ fingerprint, s.store.ends (Namespace.similar.key fingerprint) ≤
    s.store.now + c.similarTtl * second
  outlasts : ∀ id fingerprint, s.store.readable.ResultOf id fingerprint →
    s.store.ends (Namespace.similar.key fingerprint) ≤ s.store.ends (indexKey id) ∨
      ∃ e ∈ errands, e.Owes id fingerprint

namespace Errand

variable {c : CacheConfig} {taken : List ℕ} {d : Dated} {e e' : Errand} {after : Shelf} {id : Int}
  {fingerprint : String}

/-- No result lasts longer than one that is kept now. -/
theorem endsAfter_le (e : Errand)
    (hy : ∀ fingerprint, d.ends (Namespace.similar.key fingerprint) ≤
      d.now + c.similarTtl * second) (fingerprint : String) :
    d.endsAfter (e.worker c).rest (Namespace.similar.key fingerprint) ≤
      d.now + c.similarTtl * second := by
  cases hr : (e.worker c).rest with
  | set key value ttl next =>
    rcases ttl_of_set hr with ⟨other, rfl, rfl⟩ | ⟨id, rfl, rfl⟩
    · by_cases he : fingerprint = other
      · rw [he, Dated.endsAfter, Function.update_self]
      · rw [Dated.endsAfter, Function.update_of_ne fun hk => he (Namespace.key_inj.1 hk).2]
        exact hy fingerprint
    · rw [Dated.endsAfter, Function.update_of_ne (similarKey_ne_indexKey _ _)]
      exact hy fingerprint
  | _ => exact hy fingerprint

/-- A result that a worker owes to a post, or for which the index entry of the
post lasts long enough, stays so: what the worker lists now lasts long enough,
and so does what it finds listed, unless it passes that. -/
theorem Step.outlasts (h : e.Step taken d.readable e' after)
    (hle : c.similarTtl ≤ c.similarIdsTtl)
    (hy : ∀ fingerprint, d.ends (Namespace.similar.key fingerprint) ≤
      d.now + c.similarTtl * second)
    (hpass : ∀ f id, ¬(e.worker c).Passes d f id)
    (hold : d.ends (Namespace.similar.key fingerprint) ≤ d.ends (indexKey id) ∨
      e.Owes id fingerprint)
    (hr : after.ResultOf id fingerprint) :
    d.endsAfter (e.worker c).rest (Namespace.similar.key fingerprint) ≤
        d.endsAfter (e.worker c).rest (indexKey id) ∨ e'.Owes id fingerprint := by
  cases h with
  | lock hnext hi =>
    rw [worker_locking_of_next hnext]
    exact .inl (hold.resolve_right fun ho => ho.elim)
  | @keep f posts n hn =>
    rw [worker_locking hn]
    by_cases he : fingerprint = Fingerprint.of f.toJson
    · obtain ⟨found, hf, hid⟩ := hr
      rw [he, Function.update_self] at hf
      cases hf
      exact .inr ⟨he, hid⟩
    · refine .inl ?_
      show Function.update d.ends _ _ _ ≤ Function.update d.ends _ _ _
      rw [Function.update_of_ne fun hk => he (Namespace.key_inj.1 hk).2,
        Function.update_of_ne (similarKey_ne_indexKey _ _).symm]
      exact hold.resolve_right fun ho => ho.elim
  | look hn hf =>
    rw [worker_locking hn]
    exact .inl (hold.resolve_right fun ho => ho.elim)
  | miss hn hf =>
    rw [worker_locking hn]
    exact .inl (hold.resolve_right fun ho => ho.elim)
  | @skip f posts other todo ha =>
    rcases hold with hold | ⟨rfl, hid⟩
    · exact .inl hold
    · rcases List.mem_cons.1 hid with rfl | hid
      · -- the entry is left alone, so it does not end sooner
        refine .inl (Nat.le_of_not_lt fun hlt => hpass f id ⟨⟨posts, rfl⟩, ⟨_, rfl⟩, ?_, hlt⟩)
        exact IndexEntry.mem_read_of_adding? ha
      · exact .inr ⟨rfl, hid⟩
  | add _ => exact hold.imp_right fun ho => ⟨ho.1, List.mem_cons.1 ho.2⟩
  | @write f posts other entry todo =>
    show Function.update d.ends _ _ _ ≤ Function.update d.ends _ _ _ ∨ _
    rw [Function.update_of_ne (similarKey_ne_indexKey _ _)]
    by_cases he : id = other
    · rw [he, Function.update_self]
      exact .inl ((hy fingerprint).trans
        (Nat.add_le_add_left (Nat.mul_le_mul_right second hle) d.now))
    · rw [Function.update_of_ne fun hk => he (indexKey_injective hk)]
      exact hold.imp_right fun ho => ⟨ho.1, ho.2.resolve_left he⟩
  | listed hh => exact .inl (hold.resolve_right fun ho => List.not_mem_nil ho.2)
  | _ => exact .inl (hold.resolve_right fun ho => ho.elim)

end Errand

namespace Outlasting

variable {c : CacheConfig} {errands before behind : List Errand} {e e' : Errand} {workers : ℕ}
  {may : SimilarityFilter → Int → Prop} {s s' : Workshop Dated} {after : Dated}

theorem empty : Outlasting c [] ⟨[], [], Dated.start⟩ where
  covered := by
    rw [Workshop.readable, Dated.readable_start]
    exact .empty
  young _ := Nat.zero_le _
  outlasts _ _ h := by
    obtain ⟨found, hf, -⟩ := h
    rw [Dated.readable_start] at hf
    cases hf

/-- While time goes by, an index entry lasts as long as the results that it must list. -/
theorem waits (h : Outlasting c errands s) {later : ℕ} (hl : s.store.now ≤ later) :
    Outlasting c errands { s with store := { s.store with now := later } } := by
  have hresult : ∀ id fingerprint,
      Shelf.ResultOf (Dated.readable { s.store with now := later }) id fingerprint →
        s.store.readable.ResultOf id fingerprint :=
    fun _ _ ⟨found, hf, hid⟩ => ⟨found, Dated.readable_of_later hl hf, hid⟩
  refine ⟨?_, ?_, fun id fingerprint hr => h.outlasts id fingerprint (hresult _ _ hr)⟩
  · refine h.covered.fades ?_ (fun _ _ => Dated.readable_of_later hl) ?_
    · intro id fingerprint hmem
      obtain ⟨entry, hentry, hread⟩ := Shelf.mem_listed.1 hmem
      exact Shelf.mem_listed.2 ⟨entry, Dated.readable_of_later hl hentry, hread⟩
    · intro id fingerprint hr hmem
      refine (h.outlasts id fingerprint (hresult _ _ hr)).imp_left fun hends => ?_
      obtain ⟨entry, hentry, hread⟩ := Shelf.mem_listed.1 hmem
      obtain ⟨found, hf, -⟩ := hr
      have hlt : later < s.store.ends (indexKey id) :=
        (Dated.readable_eq_some.1 hf).1.trans_le hends
      exact Shelf.mem_listed.2
        ⟨entry, Dated.readable_eq_some.2 ⟨hlt, (Dated.readable_eq_some.1 hentry).2⟩, hread⟩
  · exact fun fingerprint => (h.young fingerprint).trans (Nat.add_le_add_right hl _)

theorem works (h : Outlasting c (before ++ e :: behind) s) (hle : c.similarTtl ≤ c.similarIdsTtl)
    (hpass : ∀ f id, ¬(e.worker c).Passes s.store f id)
    (hs : e.Step s.taken s.store.readable e' after.readable) (hnow : after.now = s.store.now)
    (hends : after.ends = s.store.endsAfter (e.worker c).rest) :
    Outlasting c (before ++ e' :: behind)
      { s with busy := (before ++ e' :: behind).map (·.worker c), store := after } where
  covered := h.covered.works hs
  young fingerprint := by
    show after.ends _ ≤ after.now + _
    rw [hends, hnow]
    exact e.endsAfter_le h.young fingerprint
  outlasts id fingerprint hr := by
    show after.ends _ ≤ after.ends _ ∨ _
    have hnew : e' ∈ before ++ e' :: behind := by simp
    rw [hends]
    rcases hs.resultOf hr with hold | howes
    · by_cases hother : ∃ o ∈ before ++ behind, o.Owes id fingerprint
      · obtain ⟨o, ho, howes⟩ := hother
        exact .inr ⟨o, mem_middle.2 (.inr ho), howes⟩
      · have hself : s.store.ends (Namespace.similar.key fingerprint) ≤
            s.store.ends (indexKey id) ∨ e.Owes id fingerprint := by
          refine (h.outlasts id fingerprint hold).imp_right fun ⟨o, ho, howes⟩ => ?_
          rcases mem_middle.1 ho with rfl | ho
          · exact howes
          · exact absurd ⟨o, ho, howes⟩ hother
        exact (hs.outlasts hle h.young hpass hself hr).imp_right fun ho => ⟨e', hnew, ho⟩
    · exact .inr ⟨e', hnew, howes⟩

/-- A worker that leaves owes nothing. -/
theorem finishes (h : Outlasting c (before ++ e :: behind) s) (he : e.held = []) :
    Outlasting c (before ++ behind) { s with busy := (before ++ behind).map (·.worker c) } where
  covered := h.covered.finishes he
  young := h.young
  outlasts id fingerprint hr := by
    refine (h.outlasts id fingerprint hr).imp_right fun ⟨o, ho, howes⟩ => ?_
    rcases mem_middle.1 ho with rfl | hother
    · have hstripe := (h.covered.sound o ho).stripe_mem howes
      rw [he] at hstripe
      cases hstripe
    · exact ⟨o, hother, howes⟩

/-- The invariant is kept by every step, as long as no write-back passes an index
entry that ends too soon. -/
theorem step (h : Outlasting c errands s) (hpos : 0 < c.similarTtl)
    (hle : c.similarTtl ≤ c.similarIdsTtl) (hmay : ∀ f id, ¬may f id)
    (hs : s.DatedStep c workers may s') : ∃ errands', Outlasting c errands' s' := by
  cases hs with
  | wait hl => exact ⟨_, h.waits hl⟩
  | submit t => exact ⟨_, h.covered.waiting _, h.young, h.outlasts⟩
  | @begin t later _ _ =>
    refine ⟨_, (h.covered.waiting later).begins t, h.young, fun id fingerprint hr => ?_⟩
    refine (h.outlasts id fingerprint hr).imp_right fun ⟨o, ho, howes⟩ => ?_
    exact ⟨o, List.mem_append_left _ ho, howes⟩
  | @work before behind w w' after hb hpass hs =>
    have hbusy := h.covered.busy
    rw [show s.readable.busy = before ++ w :: behind from hb] at hbusy
    obtain ⟨before, e, behind, rfl, rfl, rfl, rfl⟩ := exists_middle_of_map hbusy.symm
    obtain ⟨e', rfl, hstep⟩ := Errand.step_of_worker (hs.readable (e.ttl_pos hpos hle))
    refine ⟨before ++ e' :: behind, ?_⟩
    simpa using h.works hle (fun f id hp => hmay f id (hpass f id hp)) hstep hs.now_eq hs.ends_eq
  | @finish before behind w hb _ hh =>
    have hbusy := h.covered.busy
    rw [show s.readable.busy = before ++ w :: behind from hb] at hbusy
    obtain ⟨before, e, behind, rfl, rfl, rfl, rfl⟩ := exists_middle_of_map hbusy.symm
    rw [Errand.held_worker] at hh
    exact ⟨before ++ behind, by simpa using h.finishes hh⟩

theorem of_reachable (hpos : 0 < c.similarTtl) (hle : c.similarTtl ≤ c.similarIdsTtl)
    (hmay : ∀ f id, ¬may f id) (h : s.DatedReachable c workers may) :
    ∃ errands, Outlasting c errands s := by
  induction h with
  | refl => exact ⟨[], empty⟩
  | tail _ hs ih =>
    obtain ⟨errands, hout⟩ := ih
    exact hout.step hpos hle hmay hs

end Outlasting

/-- As long as no write-back passes an index entry that ends too soon, all results
that can be read are listed for their posts in entries that can be read,
whenever nobody is at work. -/
theorem Workshop.DatedReachable.indexed {c : CacheConfig} {workers : ℕ}
    {may : SimilarityFilter → Int → Prop} {s : Workshop Dated} (hpos : 0 < c.similarTtl)
    (hle : c.similarTtl ≤ c.similarIdsTtl) (hmay : ∀ f id, ¬may f id)
    (h : s.DatedReachable c workers may) (hidle : s.busy = []) : s.store.readable.Indexed := by
  obtain ⟨errands, hout⟩ := Outlasting.of_reachable hpos hle hmay h
  obtain rfl : errands = [] := List.map_eq_nil_iff.1 (hout.covered.busy.symm.trans hidle)
  exact hout.covered.indexed

end FilmCatalog
