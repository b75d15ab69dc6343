import FilmCatalog.Filter.Build
import Mathlib

/-!
# Sets as lists in order

The sets of a filter are lists that were sorted and from which every element
was dropped that the one kept before it is the same as. Sameness may be coarser
than equality, as it is for colors, where the zeros of both signs are one share;
it has only to go with the order (`Likeness`). Then exactly the least of all
elements that are the same is kept, so such a list is strictly ascending and
depends on nothing but what is in the list it was made from.

Key definitions: `Likeness`, `orderedSet`, `namedPairs`.
Key theorems: `mem_orderedSet`, `pairwise_orderedSet`, `orderedSet_congr`,
`ColorPredicate.likeness`.
-/

namespace FilmCatalog

/-- An order and a sameness that go together: of three elements in order, if the
outer two are the same, then so are the first two. -/
structure Likeness {α : Type} (le same : α → α → Bool) : Prop where
  le_trans : ∀ a b c, le a b = true → le b c = true → le a c = true
  le_total : ∀ a b, (le a b || le b a) = true
  le_antisymm : ∀ a b, le a b = true → le b a = true → a = b
  same_trans : ∀ a b c, same a b = true → same b c = true → same a c = true
  convex : ∀ a b c, le a b = true → le b c = true → same a c = true → same a b = true

/-- The elements in order without those that the one before is the same as. -/
def orderedSet {α : Type} (le same : α → α → Bool) (xs : List α) : List α :=
  dropRepeats same (xs.mergeSort le)

section

variable {α : Type} {le same : α → α → Bool}

theorem go_sublist (last : α) (xs : List α) : (dropRepeats.go same last xs).Sublist xs := by
  induction xs generalizing last with
  | nil => exact .slnil
  | cons b rest ih =>
    rw [dropRepeats.go]
    split
    · exact (ih last).cons b
    · exact (ih b).cons_cons b

theorem dropRepeats_sublist (xs : List α) : (dropRepeats same xs).Sublist xs := by
  cases xs with
  | nil => exact .slnil
  | cons a rest => exact (go_sublist a rest).cons_cons a

variable (h : Likeness le same)

include h

/-- Behind an element that was kept exactly those are kept that are not the same
as it and come first of those that are the same as they. -/
theorem Likeness.mem_go {last : α} {xs : List α}
    (hs : (last :: xs).Pairwise fun a b => le a b = true) (a : α) :
    a ∈ dropRepeats.go same last xs ↔
      a ∈ xs ∧ same last a = false ∧ ∀ b ∈ xs, same b a = true → le a b = true := by
  induction xs generalizing last with
  | nil => simp [dropRepeats.go]
  | cons b rest ih =>
    obtain ⟨hlast, hrest⟩ := List.pairwise_cons.1 hs
    obtain ⟨hb, hsorted⟩ := List.pairwise_cons.1 hrest
    rw [dropRepeats.go, List.mem_cons, List.forall_mem_cons]
    by_cases hsame : same last b = true
    · -- what is the same as `b` is the same as `last`, so nothing changes for the rest
      have hskip : (last :: rest).Pairwise fun a b => le a b = true :=
        List.pairwise_cons.2 ⟨fun c hc => hlast c (List.mem_cons_of_mem _ hc), hsorted⟩
      have htrans : same b a = true → same last a = true := h.same_trans _ _ _ hsame
      rw [if_pos hsame, ih hskip]
      grind
    · -- `b` is kept, and nothing behind it is the same as `last`
      have hconvex : a ∈ rest → same last a = true → same last b = true := fun ha =>
        h.convex _ _ _ (hlast b List.mem_cons_self) (hb a ha)
      have hanti : a ∈ rest → le a b = true → a = b := fun ha hab =>
        h.le_antisymm _ _ hab (hb a ha)
      have hrefl : le b b = true := by simpa using h.le_total b b
      rw [if_neg hsame, List.mem_cons, ih hrest]
      grind

/-- Behind an element that was kept nothing is the same as it or as another one. -/
theorem Likeness.pairwise_go {last : α} {xs : List α}
    (hs : (last :: xs).Pairwise fun a b => le a b = true) :
    (last :: dropRepeats.go same last xs).Pairwise fun a b => same a b = false := by
  induction xs generalizing last with
  | nil => simp [dropRepeats.go]
  | cons b rest ih =>
    obtain ⟨hlast, hrest⟩ := List.pairwise_cons.1 hs
    have hne : ∀ c ∈ dropRepeats.go same last (b :: rest), same last c = false := fun c hc =>
      ((h.mem_go hs c).1 hc).2.1
    refine List.pairwise_cons.2 ⟨hne, ?_⟩
    rw [dropRepeats.go]
    split
    · have hskip : (last :: rest).Pairwise fun a b => le a b = true :=
        hs.sublist ((List.sublist_cons_self b rest).cons_cons last)
      exact (List.pairwise_cons.1 (ih hskip)).2
    · exact ih hrest

theorem Likeness.sorted (xs : List α) : (xs.mergeSort le).Pairwise fun a b => le a b = true :=
  List.pairwise_mergeSort h.le_trans h.le_total xs

/-- A set has the least of all elements that are the same. -/
theorem mem_orderedSet {xs : List α} {a : α} :
    a ∈ orderedSet le same xs ↔ a ∈ xs ∧ ∀ b ∈ xs, same b a = true → le a b = true := by
  have hs := h.sorted xs
  have hmem : ∀ b, b ∈ xs ↔ b ∈ xs.mergeSort le := fun b => (List.mergeSort_perm xs le).mem_iff.symm
  simp only [orderedSet, hmem]
  cases hxs : xs.mergeSort le with
  | nil => simp [dropRepeats]
  | cons c rest =>
    rw [hxs] at hs
    obtain ⟨hc, -⟩ := List.pairwise_cons.1 hs
    have hrefl : le c c = true := by simpa using h.le_total c c
    have hanti : a ∈ rest → le a c = true → a = c := fun ha hac => h.le_antisymm _ _ hac (hc a ha)
    rw [dropRepeats, List.mem_cons, h.mem_go hs, List.mem_cons, List.forall_mem_cons]
    grind

/-- The elements of a set are in order and no two of them are the same. -/
theorem pairwise_orderedSet (xs : List α) :
    (orderedSet le same xs).Pairwise fun a b => le a b = true ∧ same a b = false := by
  have hs := h.sorted xs
  refine (hs.sublist (dropRepeats_sublist _)).and ?_
  cases hxs : xs.mergeSort le with
  | nil => exact .nil
  | cons c rest =>
    rw [hxs] at hs
    exact h.pairwise_go hs

/-- A set depends only on what is in the list, if all that is in it is the same as itself. -/
theorem orderedSet_congr {xs ys : List α} (hrefl : ∀ a ∈ xs, same a a = true)
    (hmem : ∀ a, a ∈ xs ↔ a ∈ ys) : orderedSet le same xs = orderedSet le same ys := by
  have hsame : ∀ a, a ∈ orderedSet le same xs ↔ a ∈ orderedSet le same ys := by
    intro a
    simp only [mem_orderedSet h, hmem]
  have hnodup : ∀ zs : List α, (∀ a ∈ zs, same a a = true) → (orderedSet le same zs).Nodup := by
    intro zs hz
    refine (pairwise_orderedSet h zs).imp_of_mem fun {a b} ha _ hab => ?_
    rintro rfl
    rw [hz a ((mem_orderedSet h).1 ha).1] at hab
    cases hab.2
  have hperm := (List.perm_ext_iff_of_nodup (hnodup xs hrefl)
    (hnodup ys fun a ha => hrefl a ((hmem a).2 ha))).2 hsame
  exact hperm.eq_of_pairwise (fun a b _ _ hab hba => h.le_antisymm a b hab.1 hba.1)
    (pairwise_orderedSet h xs) (pairwise_orderedSet h ys)

end

/-! ## Ids and words -/

section

variable {α : Type} [LinearOrder α] [DecidableEq α] {le : α → α → Bool}
  (hle : ∀ a b, le a b = true ↔ a ≤ b)

include hle

/-- A linear order goes together with equality. -/
theorem likeness_of_linearOrder : Likeness le (· == ·) where
  le_trans a b c := by simpa only [hle] using le_trans
  le_total a b := by simpa only [Bool.or_eq_true, hle] using le_total a b
  le_antisymm a b := by simpa only [hle] using le_antisymm
  same_trans a b c := by simpa using Eq.trans
  convex a b c := by
    simp only [hle, beq_iff_eq]
    rintro hab hbc rfl
    exact le_antisymm hab hbc

/-- A set of a linear order is strictly ascending. -/
theorem orderedSet_ascending (xs : List α) : (orderedSet le (· == ·) xs).Pairwise (· < ·) := by
  refine (pairwise_orderedSet (likeness_of_linearOrder hle) xs).imp ?_
  intro a b hab
  exact lt_of_le_of_ne ((hle a b).1 hab.1) (beq_eq_false_iff_ne.1 hab.2)

/-- Lists with the same members make one set of a linear order. -/
theorem orderedSet_eq_of_mem {xs ys : List α} (h : ∀ a, a ∈ xs ↔ a ∈ ys) :
    orderedSet le (· == ·) xs = orderedSet le (· == ·) ys :=
  orderedSet_congr (likeness_of_linearOrder hle) (fun a _ => beq_self_eq_true a) h

end

theorem idSet_eq (ids : List Int) :
    idSet ids = orderedSet (fun a b => decide (a ≤ b)) (· == ·) ids := rfl

theorem keywordSet_eq (words : List String) :
    keywordSet words =
      orderedSet (fun a b => decide (a ≤ b)) (· == ·) (words.filterMap Text.nonBlank?) := rfl

/-! ## Colors -/

/-- The predicates that color pairs stand for, in their places. -/
def namedPairs (pairs : List (String × Double)) : List ColorPredicate :=
  pairs.filterMap fun (name, percent) => (Text.nonBlank? name).map (⟨·, percent⟩)

theorem colorSet_eq (pairs : List (String × Double)) :
    colorSet pairs = orderedSet ColorPredicate.le ColorPredicate.same (namedPairs pairs) := rfl

theorem mem_namedPairs {pairs : List (String × Double)} {c : ColorPredicate} :
    c ∈ namedPairs pairs ↔
      ∃ pair ∈ pairs, Text.nonBlank? pair.1 = some c.name ∧ pair.2 = c.minPercent := by
  simp only [namedPairs, List.mem_filterMap, Option.map_eq_some_iff]
  constructor
  · rintro ⟨⟨name, percent⟩, hpair, word, hword, rfl⟩
    exact ⟨_, hpair, hword, rfl⟩
  · rintro ⟨⟨name, percent⟩, hpair, hword, rfl⟩
    exact ⟨_, hpair, _, hword, rfl⟩

namespace Double

theorem key_of_rank_le {x y : Double} (h : x.rank ≤ y.rank) : x.key ≤ y.key := by
  unfold rank at h
  unfold key
  grind

theorem key_eq_of_equal {x y : Double} (h : x.equal y = true) :
    x.isNaN = false ∧ y.isNaN = false ∧ x.key = y.key := by
  simpa [equal, and_assoc] using h

theorem equal_trans {x y z : Double} (hxy : x.equal y = true) (hyz : y.equal z = true) :
    x.equal z = true := by
  obtain ⟨hx, -, hkey⟩ := key_eq_of_equal hxy
  obtain ⟨-, hz, hkey'⟩ := key_eq_of_equal hyz
  simp [equal, hx, hz, hkey, hkey']

/-- What lies between two numbers of one value has that value. -/
theorem equal_of_between {x y z : Double} (hxy : x.rank ≤ y.rank) (hyz : y.rank ≤ z.rank)
    (h : x.equal z = true) : x.equal y = true := by
  obtain ⟨hx, hz, hkey⟩ := key_eq_of_equal h
  have hle := key_of_rank_le hxy
  have hge := key_of_rank_le hyz
  have heq : x.key = y.key := by omega
  have hy : y.isNaN = false := by
    unfold isNaN at hx ⊢
    unfold key at heq
    grind
  simp [equal, hx, hy, heq]

end Double

namespace ColorPredicate

/-- The place of a color predicate in their order. -/
def place (c : ColorPredicate) : String ×ₗ Int := toLex (c.name, c.minPercent.rank)

theorem place_le_iff {a b : ColorPredicate} :
    a.place ≤ b.place ↔
      a.name < b.name ∨ a.name = b.name ∧ a.minPercent.rank ≤ b.minPercent.rank :=
  Prod.Lex.toLex_le_toLex

theorem le_iff {a b : ColorPredicate} : le a b = true ↔ a.place ≤ b.place := by
  simp [le, Double.rankLe, place_le_iff]

theorem place_injective : Function.Injective place := by
  intro a b h
  obtain ⟨hname, hrank⟩ := Prod.mk.inj (toLex_inj.1 h)
  obtain ⟨name, x⟩ := a
  obtain ⟨name', y⟩ := b
  exact congrArg₂ ColorPredicate.mk hname (Double.ext_of_rank hrank)

theorem same_iff {a b : ColorPredicate} :
    same a b = true ↔ a.name = b.name ∧ a.minPercent.equal b.minPercent = true := by
  simp [same]

/-- The order of colors goes together with their sameness. -/
theorem likeness : Likeness le same where
  le_trans a b c := by simpa only [le_iff] using le_trans
  le_total a b := by simpa only [Bool.or_eq_true, le_iff] using le_total a.place b.place
  le_antisymm a b := by
    simp only [le_iff]
    exact fun hab hba => place_injective (le_antisymm hab hba)
  same_trans a b c := by
    simp only [same_iff]
    rintro ⟨hab, hx⟩ ⟨hbc, hy⟩
    exact ⟨hab.trans hbc, Double.equal_trans hx hy⟩
  convex a b c := by
    simp only [le_iff, same_iff]
    rintro hab hbc ⟨hac, hx⟩
    have hname : a.name = b.name :=
      le_antisymm (Prod.Lex.monotone_fst _ _ hab) (hac ▸ Prod.Lex.monotone_fst _ _ hbc)
    have hxy : a.minPercent.rank ≤ b.minPercent.rank :=
      ((place_le_iff.1 hab).resolve_left (hname ▸ lt_irrefl _)).2
    have hyz : b.minPercent.rank ≤ c.minPercent.rank :=
      ((place_le_iff.1 hbc).resolve_left (hname ▸ hac ▸ lt_irrefl _)).2
    exact ⟨hname, Double.equal_of_between hxy hyz hx⟩

end ColorPredicate

theorem mem_namedPairs_of_mem_colorSet {pairs : List (String × Double)} {c : ColorPredicate}
    (h : c ∈ colorSet pairs) : c ∈ namedPairs pairs := by
  rw [colorSet_eq, mem_orderedSet ColorPredicate.likeness] at h
  exact h.1

end FilmCatalog
