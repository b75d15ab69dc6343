import Mathlib

/-!
# Results

How a sequence of steps that can fail is taken apart and put together.

Key theorems: `ok_bind`, `bind_eq_ok_iff`, `mapM_ok`, `mapM_eq_ok_iff`,
`exists_of_mapM_error`, `map_of_mapM_ok`.
-/

namespace FilmCatalog

variable {ε α β γ : Type}

@[simp] theorem ok_bind (a : α) (f : α → Except ε β) : (Except.ok a >>= f) = f a := by
  simp [bind, Except.bind]

@[simp] theorem pure_eq_ok (a : α) : (pure a : Except ε α) = .ok a := by
  simp [pure, Except.pure]

/-- Two steps give a value if the first gives one from which the second gives it. -/
theorem bind_eq_ok_iff {x : Except ε α} {f : α → Except ε β} {b : β} :
    (x >>= f) = .ok b ↔ ∃ a, x = .ok a ∧ f a = .ok b := by
  cases x with
  | ok a => simp
  | error e => simp [bind, Except.bind]

/-- Two steps give some value if the first gives one from which the second gives some. -/
theorem exists_bind_eq_ok_iff {x : Except ε α} {f : α → Except ε β} :
    (∃ b, (x >>= f) = .ok b) ↔ ∃ a, x = .ok a ∧ ∃ b, f a = .ok b := by
  simp only [bind_eq_ok_iff]
  exact ⟨fun ⟨b, a, ha, hb⟩ => ⟨a, ha, b, hb⟩, fun ⟨a, ha, b, hb⟩ => ⟨b, a, ha, hb⟩⟩

theorem mapM_ok {read : β → Except ε γ} {g : α → β} {h : α → γ}
    (hread : ∀ a, read (g a) = .ok (h a)) (rows : List α) :
    (rows.map g).mapM read = .ok (rows.map h) := by
  induction rows with
  | nil => rfl
  | cons a rest ih =>
    rw [List.map_cons, List.mapM_cons, hread, ih]
    simp

/-- Things are read one by one. -/
theorem mapM_eq_ok_iff {read : α → Except ε β} {xs : List α} {ys : List β} :
    xs.mapM read = .ok ys ↔ List.Forall₂ (fun x y => read x = .ok y) xs ys := by
  induction xs generalizing ys with
  | nil => cases ys <;> simp
  | cons a rest ih =>
    rw [List.mapM_cons, List.forall₂_cons_left_iff, bind_eq_ok_iff]
    simp only [bind_eq_ok_iff, ih, pure_eq_ok, Except.ok.injEq]
    constructor
    · rintro ⟨b, hb, bs, hbs, rfl⟩
      exact ⟨b, bs, hb, hbs, rfl⟩
    · rintro ⟨b, bs, hb, hbs, rfl⟩
      exact ⟨b, hb, bs, hbs, rfl⟩

/-- Reading fails with what went wrong with one of the things. -/
theorem exists_of_mapM_error {read : α → Except ε β} {xs : List α} {e : ε}
    (h : xs.mapM read = .error e) : ∃ x ∈ xs, read x = .error e := by
  induction xs with
  | nil => simp [pure, Except.pure] at h
  | cons a rest ih =>
    rw [List.mapM_cons] at h
    cases ha : read a with
    | error e' =>
      refine ⟨a, List.mem_cons_self, ?_⟩
      simpa [ha, bind, Except.bind] using h
    | ok b =>
      rw [ha, ok_bind] at h
      cases hrest : rest.mapM read with
      | error e' =>
        have he : e' = e := by simpa [hrest, bind, Except.bind] using h
        obtain ⟨x, hx, hread⟩ := ih (he ▸ hrest)
        exact ⟨x, List.mem_cons_of_mem a hx, hread⟩
      | ok bs => simp [hrest] at h

/-- Each of the things is read. -/
theorem exists_of_mapM_ok {read : α → Except ε β} {xs : List α} {ys : List β}
    (h : xs.mapM read = .ok ys) {x : α} (hx : x ∈ xs) : ∃ y, read x = .ok y := by
  rw [mapM_eq_ok_iff] at h
  induction h with
  | nil => cases hx
  | cons hab _ ih =>
    rcases List.mem_cons.1 hx with rfl | hx
    · exact ⟨_, hab⟩
    · exact ih hx

/-- As many values are read as there were things to read. -/
theorem length_of_mapM_ok {read : α → Except ε β} {xs : List α} {ys : List β}
    (h : xs.mapM read = .ok ys) : ys.length = xs.length :=
  (mapM_eq_ok_iff.1 h).length_eq.symm

/-- What every read keeps is kept in the values that are read. -/
theorem map_of_mapM_ok {read : α → Except ε β} {f : β → γ} {g : α → γ}
    (hread : ∀ a b, read a = .ok b → f b = g a) {xs : List α} {ys : List β}
    (h : xs.mapM read = .ok ys) : ys.map f = xs.map g := by
  rw [mapM_eq_ok_iff] at h
  induction h with
  | nil => rfl
  | cons hab _ ih => rw [List.map_cons, List.map_cons, hread _ _ hab, ih]

end FilmCatalog
