import FilmCatalog.Filter.Build
import FilmCatalog.Proofs.Result

/-!
# Constructed filters

A filter comes from request parameters or from ids, and is changed only by
taking other flags, a cursor or a page size. Such a filter has no limit or a
positive one, and a seed exactly in the random order. Sets of ids that it has
are lists in ascending order.

Key definitions: `PostFilter.Constructed`.
Key theorems: `mem_idSet`, `Constructed.limit_pos`, `Constructed.seed_isSome_iff`.
-/

namespace FilmCatalog

/-! ## Sets of ids -/

theorem mem_dropRepeats_go (a last : Int) (ids : List Int) :
    a = last ∨ a ∈ dropRepeats.go (· == ·) last ids ↔ a = last ∨ a ∈ ids := by
  induction ids generalizing last with
  | nil => rfl
  | cons b rest ih =>
    rw [dropRepeats.go, List.mem_cons]
    split
    · rename_i hb
      obtain rfl := beq_iff_eq.1 hb
      rw [ih, ← or_assoc, or_self]
    · rw [List.mem_cons, ih]

/-- The set of some ids has these and no others. -/
theorem mem_idSet {a : Int} {ids : List Int} : a ∈ idSet ids ↔ a ∈ ids := by
  rw [← (List.mergeSort_perm ids fun a b => decide (a ≤ b)).mem_iff, idSet]
  cases ids.mergeSort fun a b => decide (a ≤ b) with
  | nil => rfl
  | cons b rest => rw [dropRepeats, List.mem_cons, mem_dropRepeats_go, List.mem_cons]

/-! ## Filters -/

/-- The filters that can be constructed. -/
inductive PostFilter.Constructed : PostFilter → Prop where
  | everything : Constructed .everything
  | byIds (ids : List Int) : Constructed (.byIds ids)
  | build {seedSource : Unit → Int} {p : FilterParams} {f : PostFilter}
      (h : PostFilter.build seedSource p = .ok f) : Constructed f
  | withFlags {f : PostFilter} (h : Constructed f) (nsfw grayscale sprocket : Option Bool) :
      Constructed (f.withFlags nsfw grayscale sprocket)
  | withCursor {f : PostFilter} (h : Constructed f) (cursor : Int) :
      Constructed (f.withCursor cursor)
  | withPageSize {f : PostFilter} (h : Constructed f) (default max : Int) :
      Constructed (f.withPageSize default max)

namespace PostFilter

theorem seedFor_isSome {seedSource : Unit → Int} {sort : SortMode} {seed drawn : Option Int}
    (h : seedFor seedSource sort seed = .ok drawn) : drawn.isSome = decide (sort = .random) := by
  unfold seedFor at h
  split at h
  · split at h
    · cases h
      rfl
    · cases h
  · cases h
    rfl
  · rename_i hno
    cases h
    cases sort with
    | random => cases seed <;> simp_all
    | time => rfl
    | score => rfl

/-- What a filter of request parameters takes from them. -/
theorem build_fields {seedSource : Unit → Int} {p : FilterParams} {f : PostFilter}
    (h : build seedSource p = .ok f) :
    f.limit = p.limit.filter (fun n => decide (0 < n)) ∧ f.sort = p.sort.getD .time ∧
      f.cursor = p.cursor ∧ seedFor seedSource f.sort p.seed = .ok f.seed := by
  unfold build at h
  obtain ⟨seed, hseed, h⟩ := bind_eq_ok_iff.1 h
  split at h
  · cases h
  · obtain ⟨colors, -, h⟩ := bind_eq_ok_iff.1 h
    obtain ⟨width, -, h⟩ := bind_eq_ok_iff.1 h
    obtain ⟨height, -, h⟩ := bind_eq_ok_iff.1 h
    obtain ⟨ratio, -, h⟩ := bind_eq_ok_iff.1 h
    cases h
    exact ⟨rfl, rfl, rfl, hseed⟩

namespace Constructed

/-- A limit is positive. -/
theorem limit_pos {f : PostFilter} (h : f.Constructed) : ∀ n, f.limit = some n → 0 < n := by
  induction h with
  | everything => simp [PostFilter.everything]
  | byIds ids => simp [PostFilter.byIds, PostFilter.everything]
  | build h =>
    intro n hn
    rw [(build_fields h).1, Option.filter_eq_some_iff] at hn
    simpa using hn.2
  | withFlags _ _ _ _ ih => exact ih
  | withCursor _ _ ih => exact ih
  | withPageSize _ default max _ =>
    intro n hn
    simp only [PostFilter.withPageSize] at hn
    split at hn
    · rename_i hpos
      cases hn
      exact hpos
    · cases hn

/-- A filter has a seed exactly in the random order. -/
theorem seed_isSome_iff {f : PostFilter} (h : f.Constructed) :
    f.seed.isSome = true ↔ f.sort = .random := by
  induction h with
  | everything => simp [PostFilter.everything]
  | byIds ids => simp [PostFilter.byIds, PostFilter.everything]
  | build h =>
    rw [seedFor_isSome (build_fields h).2.2.2, decide_eq_true_iff]
  | withFlags _ _ _ _ ih => exact ih
  | withCursor _ _ ih => exact ih
  | withPageSize _ _ _ ih => exact ih

end Constructed
end PostFilter
end FilmCatalog
