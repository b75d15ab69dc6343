import FilmCatalog.Proofs.Cache.Coverage

/-!
# A workshop that keeps a ledger

Tasks get numbers in the order in which they are submitted, and so begin in the
order of their numbers. The ledger has which task wrote an entry last, and
which tasks got which stripes, the first one first. Nothing that a worker does
depends on it (`Ledger.Step.shop`, `Ledger.exists_step`).

Key definitions: `Ledger`, `Ledger.shop`, `Ledger.Step`, `Ledger.Reachable`.
Key theorems: `Ledger.Reachable.shop`, `Ledger.exists_of_reachable`.
-/

namespace FilmCatalog

/-- The stripe that a worker takes next. -/
def Worker.wants? (w : Worker) : Option ℕ :=
  match w.rest with
  | .lock i _ => some i
  | _ => none

/-- The key that a worker sets next. -/
def Worker.writes? (w : Worker) : Option String :=
  match w.rest with
  | .set key _ _ _ => some key
  | _ => none

/-- A workshop with all tasks that were submitted, of which some have begun, and
workers with the numbers of their tasks. -/
structure Ledger where
  tasks : List IndexTask
  begun : ℕ
  busy : List (ℕ × Worker)
  store : Shelf
  /-- The task that wrote the entry of a key. -/
  author : String → Option ℕ
  /-- Which task got which stripe, in this order. -/
  grants : List (ℕ × ℕ)

namespace Ledger

variable {c : CacheConfig} {workers : ℕ} {s s' : Ledger}

/-- The workshop without its ledger. -/
def shop (s : Ledger) : Workshop Shelf := ⟨s.tasks.drop s.begun, s.busy.map Prod.snd, s.store⟩

/-- Whether all tasks have ended. -/
def Idle (s : Ledger) : Prop := s.begun = s.tasks.length ∧ s.busy = []

/-- What becomes of a workshop when a worker comes so far with its task. -/
def worked (s : Ledger) (before behind : List (ℕ × Worker)) (n : ℕ) (w w' : Worker)
    (after : Shelf) : Ledger :=
  { s with
    busy := before ++ (n, w') :: behind
    store := after
    author := w.writes?.elim s.author fun key => Function.update s.author key (some n)
    grants := s.grants ++ (w.wants?.map (n, ·)).toList }

/-- A step of a workshop, put down in the ledger. -/
inductive Step (c : CacheConfig) (workers : ℕ) (s : Ledger) : Ledger → Prop where
  | submit (t : IndexTask) : Step c workers s { s with tasks := s.tasks ++ [t] }
  | begin {t : IndexTask} (h : s.tasks[s.begun]? = some t) (hw : s.busy.length < workers) :
      Step c workers s
        { s with begun := s.begun + 1, busy := s.busy ++ [(s.begun, ⟨t, t.job c, []⟩)] }
  | work {before behind : List (ℕ × Worker)} {n : ℕ} {w w' : Worker} {after : Shelf}
      (h : s.busy = before ++ (n, w) :: behind)
      (hs : w.Step .steady False s.shop.taken s.store w' after) :
      Step c workers s (s.worked before behind n w w' after)
  | finish {before behind : List (ℕ × Worker)} {n : ℕ} {w : Worker}
      (h : s.busy = before ++ (n, w) :: behind) (hd : w.rest = .done) (hh : w.held = []) :
      Step c workers s { s with busy := before ++ behind }

/-- The workshop in which nothing has happened. -/
def start : Ledger := ⟨[], 0, [], fun _ => none, fun _ => none, []⟩

/-- What comes of a workshop in which nothing has happened. -/
def Reachable (c : CacheConfig) (workers : ℕ) (s : Ledger) : Prop :=
  Relation.ReflTransGen (Step c workers) start s

/-! ## The ledger is kept along the way -/

theorem Step.begun_le (h : Step c workers s s') (hb : s.begun ≤ s.tasks.length) :
    s'.begun ≤ s'.tasks.length := by
  cases h with
  | submit t => exact hb.trans (by simp)
  | begin h _ => exact (List.getElem?_eq_some_iff.1 h).1
  | work _ _ => exact hb
  | finish _ _ _ => exact hb

theorem Reachable.begun_le (h : Reachable c workers s) : s.begun ≤ s.tasks.length := by
  induction h with
  | refl => exact le_refl _
  | tail _ hs ih => exact hs.begun_le ih

/-- A step is one of the workshop. -/
theorem Step.shop (h : Step c workers s s') (hb : s.begun ≤ s.tasks.length) :
    s.shop.Step c workers .steady False s'.shop := by
  cases h with
  | submit t =>
    have hstep : s.shop.Step c workers .steady False _ := .submit t
    simpa [Ledger.shop, List.drop_append_of_le_length hb] using hstep
  | @begin t h hw =>
    obtain ⟨hlt, rfl⟩ := List.getElem?_eq_some_iff.1 h
    have hstep : s.shop.Step c workers .steady False _ :=
      .begin (List.drop_eq_getElem_cons hlt) (by simpa [Ledger.shop] using hw)
    simpa [Ledger.shop] using hstep
  | @work before behind n w w' after h hs =>
    have hbusy : s.shop.busy = before.map Prod.snd ++ w :: behind.map Prod.snd := by
      simp [Ledger.shop, h]
    have hstep : s.shop.Step c workers .steady False _ := .work hbusy hs
    simpa [Ledger.shop, worked] using hstep
  | @finish before behind n w h hd hh =>
    have hbusy : s.shop.busy = before.map Prod.snd ++ w :: behind.map Prod.snd := by
      simp [Ledger.shop, h]
    have hstep : s.shop.Step c workers .steady False _ := .finish hbusy hd hh
    simpa [Ledger.shop] using hstep

theorem Reachable.shop (h : Reachable c workers s) :
    s.shop.Reachable c workers .steady False fun _ => none := by
  induction h with
  | refl => exact .refl
  | tail hr hs ih => exact .tail ih (hs.shop (Reachable.begun_le hr))

/-- Every step of the workshop can be put down. -/
theorem exists_step {w : Workshop Shelf} (hb : s.begun ≤ s.tasks.length)
    (h : s.shop.Step c workers .steady False w) : ∃ s', Step c workers s s' ∧ s'.shop = w := by
  cases h with
  | submit t =>
    exact ⟨_, .submit t, by rw [Ledger.shop, List.drop_append_of_le_length hb]; rfl⟩
  | @begin t later h hw =>
    have hget : s.tasks[s.begun]? = some t := by
      rw [← List.head?_drop, show s.tasks.drop s.begun = t :: later from h]
      rfl
    refine ⟨_, .begin hget (by simpa [Ledger.shop] using hw), ?_⟩
    have hlater : s.tasks.drop (s.begun + 1) = later := by
      rw [← List.tail_drop, show s.tasks.drop s.begun = t :: later from h]
      rfl
    simp [Ledger.shop, hlater]
  | @work before behind w w' after h hs =>
    obtain ⟨before, ⟨n, w⟩, behind, hbusy, rfl, rfl, rfl⟩ := exists_middle_of_map h
    exact ⟨_, .work hbusy hs, by simp [Ledger.shop, worked]⟩
  | @finish before behind w h hd hh =>
    obtain ⟨before, ⟨n, w⟩, behind, hbusy, rfl, rfl, rfl⟩ := exists_middle_of_map h
    exact ⟨_, .finish hbusy hd hh, by simp [Ledger.shop]⟩

/-- So every workshop that can be reached can be reached with a ledger. -/
theorem exists_of_reachable {w : Workshop Shelf}
    (h : w.Reachable c workers .steady False fun _ => none) :
    ∃ s, Reachable c workers s ∧ s.shop = w := by
  induction h with
  | refl => exact ⟨start, .refl, rfl⟩
  | tail _ hs ih =>
    obtain ⟨s, hr, rfl⟩ := ih
    obtain ⟨s', hs', rfl⟩ := exists_step hr.begun_le hs
    exact ⟨s', .tail hr hs', rfl⟩

end Ledger
end FilmCatalog
