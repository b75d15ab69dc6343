import Mathlib

/-!
# Walks by cursor

Rows go by their rank, and a cursor sees a coarser part of it, the bucket. A
walk reads a page of the rows whose bucket is after the cursor, goes on behind
the bucket of the last row of a full page, and ends with a page that is not
full. The rows may be others at every reading.

The pages of a walk are apart: every row of a later page has a later bucket.
So nothing comes twice, and a row that was there all the time is missing only
if a page ended inside its bucket before it (`Skipped`). Over rows that stay
the same a walk ends, and it visits all of them exactly if no bucket goes
across a multiple of the page size (`visits_all_iff`).

Key definitions: `Keyset`, `Keyset.after`, `Keyset.Visit`, `Keyset.visit`, `Keyset.Skipped`,
`Keyset.Inv`.
Key theorems: `inv_visit`, `missing_iff_skipped`, `flatten_sublist`, `exists_ended`,
`visits_all_iff`.
-/

namespace FilmCatalog

/-- An order of rows, the part of it that cursors see, and a cursor before all rows. -/
structure Keyset (α ρ κ : Type) [LinearOrder ρ] [LinearOrder κ] where
  rank : α → ρ
  bucket : α → κ
  start : κ
  bucket_mono : ∀ a b, rank a ≤ rank b → bucket a ≤ bucket b
  start_lt : ∀ a, start < bucket a

namespace Keyset

variable {α ρ κ : Type} [LinearOrder ρ] [LinearOrder κ] (o : Keyset α ρ κ) (n : ℕ)

/-- Whether rows are in order, no two of the same rank. -/
def Sorted (rows : List α) : Prop := rows.Pairwise fun a b => o.rank a < o.rank b

/-- The rows behind a cursor. -/
def after (c : κ) (rows : List α) : List α := rows.filter fun a => c < o.bucket a

/-- How far a walk has come: the pages that were read, and the cursor of the
next one unless the walk has ended. -/
structure Visit (α κ : Type) where
  pages : List (List α)
  next : Option κ

namespace Visit

/-- The cursor behind a page, if the page is full. -/
def nextOf (page : List α) : Option κ :=
  if page.length = n then page.getLast?.map o.bucket else none

/-- Reads one more page, unless the walk has ended. -/
def step (rows : List α) (v : Visit α κ) : Visit α κ :=
  match v.next with
  | none => v
  | some c =>
    let page := (o.after c rows).take n
    ⟨v.pages ++ [page], nextOf o n page⟩

end Visit

/-- The walk after some readings, the first of them from `sources 0`. -/
def visit (sources : ℕ → List α) : ℕ → Visit α κ
  | 0 => ⟨[], some o.start⟩
  | k + 1 => (visit sources k).step o n (sources k)

/-- A row comes behind the last row of a page and in the same bucket. -/
def Skipped (pages : List (List α)) (p : α) : Prop :=
  ∃ page ∈ pages, ∃ last, page.getLast? = some last ∧ o.rank last < o.rank p ∧
    o.bucket last = o.bucket p

/-! ## One page -/

variable {o n}

theorem rank_lt_of_bucket_lt {a b : α} (h : o.bucket a < o.bucket b) : o.rank a < o.rank b := by
  by_contra hle
  exact absurd (o.bucket_mono b a (not_lt.1 hle)) (not_le.2 h)

theorem Sorted.sublist {rows some_rows : List α} (h : o.Sorted rows) (hs : some_rows.Sublist rows) :
    o.Sorted some_rows :=
  List.Pairwise.sublist hs h

theorem page_sublist (c : κ) (rows : List α) : ((o.after c rows).take n).Sublist rows :=
  (List.take_sublist _ _).trans List.filter_sublist

theorem mem_after {c : κ} {rows : List α} {a : α} :
    a ∈ o.after c rows ↔ a ∈ rows ∧ c < o.bucket a := by
  simp [after]

theorem after_start (rows : List α) : o.after o.start rows = rows := by
  simp [after, o.start_lt]

/-- The last row of a page has the greatest bucket of it. -/
theorem bucket_le_last {page : List α} (h : o.Sorted page) {last : α}
    (hl : page.getLast? = some last) : ∀ x ∈ page, o.bucket x ≤ o.bucket last := by
  intro x hx
  obtain ⟨init, rfl⟩ := List.getLast?_eq_some_iff.1 hl
  rcases List.mem_append.1 hx with hx | hx
  · have hlt := (List.pairwise_append.1 h).2.2 x hx last List.mem_cons_self
    exact o.bucket_mono x last hlt.le
  · rw [List.mem_singleton.1 hx]

/-- A row behind the cursor is in the page, or the page is full of earlier rows. -/
theorem mem_page_or_full {c : κ} {rows : List α} (h : o.Sorted rows) {p : α} (hp : p ∈ rows)
    (hc : c < o.bucket p) :
    p ∈ (o.after c rows).take n ∨
      ((o.after c rows).take n).length = n ∧
        ∀ x ∈ (o.after c rows).take n, o.rank x < o.rank p := by
  have hmem : p ∈ (o.after c rows).take n ++ (o.after c rows).drop n := by
    rw [List.take_append_drop]
    exact mem_after.2 ⟨hp, hc⟩
  rcases List.mem_append.1 hmem with hin | hout
  · exact Or.inl hin
  · right
    have hlen : n < (o.after c rows).length := by
      by_contra hle
      rw [List.drop_of_length_le (not_lt.1 hle)] at hout
      cases hout
    have hs : o.Sorted ((o.after c rows).take n ++ (o.after c rows).drop n) := by
      rw [List.take_append_drop]
      exact h.sublist List.filter_sublist
    exact ⟨List.length_take_of_le hlen.le, fun x hx => (List.pairwise_append.1 hs).2.2 x hx p hout⟩

theorem nextOf_eq_some_iff {page : List α} {c : κ} :
    Visit.nextOf o n page = some c ↔
      page.length = n ∧ ∃ last, page.getLast? = some last ∧ o.bucket last = c := by
  unfold Visit.nextOf
  split <;> simp_all

theorem length_ne_of_nextOf_eq_none (hn : 0 < n) {page : List α}
    (h : Visit.nextOf o n page = none) : page.length ≠ n := by
  intro hfull
  have hne : page ≠ [] := List.ne_nil_of_length_pos (by rw [hfull]; exact hn)
  have hsome := (nextOf_eq_some_iff (o := o)).2
    ⟨hfull, _, List.getLast?_eq_some_getLast hne, rfl⟩
  rw [h] at hsome
  cases hsome

/-! ## A run of pages -/

/-- What holds of a walk after `k` readings. -/
structure Inv (o : Keyset α ρ κ) (n : ℕ) (sources : ℕ → List α) (v : Visit α κ) (k : ℕ) : Prop where
  within : ∀ page ∈ v.pages, o.Sorted page
  apart : v.pages.Pairwise fun early late => ∀ x ∈ early, ∀ y ∈ late, o.bucket x < o.bucket y
  /-- A cursor is no earlier than what was read. -/
  reached : ∀ c, v.next = some c → ∀ x ∈ v.pages.flatten, o.bucket x ≤ c
  found : ∀ x ∈ v.pages.flatten, ∃ j < k, x ∈ sources j
  count : v.pages.length ≤ k ∧ ∀ c, v.next = some c → v.pages.length = k
  full : ∀ c, v.next = some c → ∀ page ∈ v.pages, page.length = n
  short : v.next = none → ∃ init last, v.pages = init ++ [last] ∧
    (∀ page ∈ init, page.length = n) ∧ last.length < n
  /-- A row that was there at every reading was read, is still to come or was skipped. -/
  accounted : ∀ p, (∀ j < v.pages.length, p ∈ sources j) →
    p ∈ v.pages.flatten ∨ (∃ c, v.next = some c ∧ c < o.bucket p) ∨ o.Skipped v.pages p

theorem inv_start (sources : ℕ → List α) : o.Inv n sources ⟨[], some o.start⟩ 0 where
  within := by simp
  apart := List.Pairwise.nil
  reached := by simp
  found := by simp
  count := by simp
  full := by simp
  short := by simp
  accounted p _ := Or.inr (Or.inl ⟨o.start, rfl, o.start_lt p⟩)

theorem Skipped.append {pages : List (List α)} {p : α} (h : o.Skipped pages p)
    (later : List (List α)) : o.Skipped (pages ++ later) p := by
  obtain ⟨page, hpage, h⟩ := h
  exact ⟨page, List.mem_append_left _ hpage, h⟩

theorem inv_step (hn : 0 < n) {sources : ℕ → List α} {v : Visit α κ} {k : ℕ}
    (hs : o.Sorted (sources k)) (h : o.Inv n sources v k) :
    o.Inv n sources (v.step o n (sources k)) (k + 1) := by
  obtain ⟨pages, next⟩ := v
  cases next with
  | none =>
    refine ⟨h.within, h.apart, h.reached, fun x hx => ?_, ⟨?_, by simp [Visit.step]⟩, h.full,
      h.short, h.accounted⟩
    · obtain ⟨j, hj, hx⟩ := h.found x hx
      exact ⟨j, by omega, hx⟩
    · have := h.count.1
      simp only [Visit.step] at this ⊢
      omega
  | some c =>
    simp only [Visit.step]
    set page := (o.after c (sources k)).take n with hpage
    have hsorted : o.Sorted page := hs.sublist (page_sublist c _)
    have hbehind : ∀ y ∈ page, c < o.bucket y := fun y hy =>
      (mem_after.1 (List.mem_of_mem_take hy)).2
    have hreached : ∀ x ∈ pages.flatten, o.bucket x ≤ c := h.reached c rfl
    have hlength : pages.length = k := h.count.2 c rfl
    refine ⟨?_, ?_, ?_, ?_, ?_, ?_, ?_, ?_⟩
    · intro q hq
      rcases List.mem_append.1 hq with hq | hq
      · exact h.within q hq
      · rwa [List.mem_singleton.1 hq]
    · refine List.pairwise_append.2 ⟨h.apart, List.pairwise_singleton _ _, ?_⟩
      intro early hearly late hlate x hx y hy
      rw [List.mem_singleton.1 hlate] at hy
      exact (hreached x (List.mem_flatten.2 ⟨early, hearly, hx⟩)).trans_lt (hbehind y hy)
    · intro c' hc' x hx
      obtain ⟨-, last, hlast, rfl⟩ := nextOf_eq_some_iff.1 hc'
      rw [List.flatten_append, List.mem_append, List.flatten_singleton] at hx
      rcases hx with hx | hx
      · exact (hreached x hx).trans (hbehind last (List.mem_of_getLast? hlast)).le
      · exact bucket_le_last hsorted hlast x hx
    · intro x hx
      rw [List.flatten_append, List.mem_append, List.flatten_singleton] at hx
      rcases hx with hx | hx
      · obtain ⟨j, hj, hx⟩ := h.found x hx
        exact ⟨j, by omega, hx⟩
      · exact ⟨k, by omega, (page_sublist c _).subset hx⟩
    · simp [hlength]
    · intro c' hc' q hq
      rcases List.mem_append.1 hq with hq | hq
      · exact h.full c rfl q hq
      · rw [List.mem_singleton.1 hq]
        exact (nextOf_eq_some_iff.1 hc').1
    · intro hend
      have hle : page.length ≤ n := List.length_take_le _ _
      exact ⟨pages, page, rfl, h.full c rfl,
        lt_of_le_of_ne hle (length_ne_of_nextOf_eq_none hn hend)⟩
    · intro p hp
      simp only [List.length_append, List.length_singleton, hlength] at hp
      have hearlier : ∀ j < pages.length, p ∈ sources j := fun j hj => hp j (by omega)
      rcases h.accounted p hearlier with hin | ⟨c', hc', hlt⟩ | hskip
      · exact Or.inl (by simp [hin])
      · cases hc'
        rcases mem_page_or_full (n := n) hs (hp k (by omega)) hlt with hin | ⟨hfull, hless⟩
        · exact Or.inl (by simp [hpage, hin])
        · -- The page is full of earlier rows, so its last one is what the row is compared with.
          have hne : page ≠ [] := List.ne_nil_of_length_pos (by rw [hfull]; exact hn)
          have hlast := List.getLast?_eq_some_getLast hne
          have hbefore := hless _ (List.getLast_mem hne)
          rcases (o.bucket_mono _ p hbefore.le).lt_or_eq with hlt | heq
          · exact Or.inr (Or.inl ⟨_, nextOf_eq_some_iff.2 ⟨hfull, _, hlast, rfl⟩, hlt⟩)
          · exact Or.inr (Or.inr ⟨page, by simp, _, hlast, hbefore, heq⟩)
      · exact Or.inr (Or.inr (hskip.append _))

theorem inv_visit (hn : 0 < n) {sources : ℕ → List α} (hs : ∀ k, o.Sorted (sources k)) (k : ℕ) :
    o.Inv n sources (o.visit n sources k) k := by
  induction k with
  | zero => exact inv_start sources
  | succ k ih => exact inv_step hn (hs k) ih

/-- No row comes twice, and later pages hold later rows. -/
theorem Inv.flatten_sorted {sources : ℕ → List α} {v : Visit α κ} {k : ℕ}
    (h : o.Inv n sources v k) : o.Sorted v.pages.flatten := by
  rw [Sorted, List.pairwise_flatten]
  exact ⟨h.within, h.apart.imp fun hlt x hx y hy => rank_lt_of_bucket_lt (hlt x hx y hy)⟩

/-- A skipped row is on no page: earlier pages hold earlier buckets, later pages
later ones, and its own page ends before it. -/
theorem Inv.not_mem_of_skipped {sources : ℕ → List α} {v : Visit α κ} {k : ℕ}
    (h : o.Inv n sources v k) {p : α} (hp : o.Skipped v.pages p) : p ∉ v.pages.flatten := by
  obtain ⟨page, hpage, last, hlast, hrank, hbucket⟩ := hp
  intro hin
  obtain ⟨before, behind, hsplit⟩ := List.append_of_mem hpage
  have happart := h.apart
  have hwithin := h.within page hpage
  rw [hsplit, List.pairwise_append, List.pairwise_cons] at happart
  rw [hsplit, List.flatten_append, List.flatten_cons, List.mem_append, List.mem_append] at hin
  have hmem : last ∈ page := List.mem_of_getLast? hlast
  rcases hin with hin | hin | hin
  · obtain ⟨early, hearly, hx⟩ := List.mem_flatten.1 hin
    exact absurd (happart.2.2 early hearly page List.mem_cons_self p hx last hmem) hbucket.not_gt
  · obtain ⟨init, rfl⟩ := List.getLast?_eq_some_iff.1 hlast
    rcases List.mem_append.1 hin with hin | hin
    · exact absurd ((List.pairwise_append.1 hwithin).2.2 p hin last List.mem_cons_self) hrank.not_gt
    · rw [List.mem_singleton.1 hin] at hrank
      exact lt_irrefl _ hrank
  · obtain ⟨late, hlate, hx⟩ := List.mem_flatten.1 hin
    exact absurd (happart.2.1.1 late hlate last hmem p hx) hbucket.not_lt

/-- When a walk has ended, a row that was there at every reading is missing
exactly if it was skipped. -/
theorem Inv.missing_iff_skipped {sources : ℕ → List α} {v : Visit α κ} {k : ℕ}
    (h : o.Inv n sources v k) (hend : v.next = none) {p : α}
    (hp : ∀ j < v.pages.length, p ∈ sources j) :
    p ∉ v.pages.flatten ↔ o.Skipped v.pages p := by
  refine ⟨fun hout => ?_, h.not_mem_of_skipped⟩
  rcases h.accounted p hp with hin | ⟨c, hc, -⟩ | hskip
  · exact absurd hin hout
  · rw [hend] at hc
    cases hc
  · exact hskip

/-! ## Rows that stay the same -/

instance : Std.Irrefl fun a b : α => o.rank a < o.rank b := ⟨fun _ => lt_irrefl _⟩

instance : Std.Antisymm fun a b : α => o.rank a < o.rank b :=
  ⟨fun _ _ hab hba => absurd hab hba.not_gt⟩

theorem Inv.flatten_sublist {rows : List α} (hs : o.Sorted rows) {v : Visit α κ} {k : ℕ}
    (h : o.Inv n (fun _ => rows) v k) : v.pages.flatten.Sublist rows := by
  refine List.sublist_of_subperm_of_pairwise ?_ h.flatten_sorted hs
  refine List.subperm_of_subset h.flatten_sorted.nodup fun x hx => ?_
  obtain ⟨j, -, hx⟩ := h.found x hx
  exact hx

theorem length_flatten_of_full {pages : List (List α)} (h : ∀ page ∈ pages, page.length = n) :
    pages.flatten.length = pages.length * n := by
  rw [List.length_flatten, List.map_congr_left h]
  simp

/-- A walk over rows that stay the same ends. -/
theorem exists_ended (hn : 0 < n) {rows : List α} (hs : o.Sorted rows) :
    ∃ k, (o.visit n (fun _ => rows) k).next = none := by
  refine ⟨rows.length + 1, ?_⟩
  have h := inv_visit (o := o) hn (fun _ : ℕ => hs) (rows.length + 1)
  by_contra hne
  obtain ⟨c, hc⟩ := Option.ne_none_iff_exists'.1 hne
  have hlen := (h.flatten_sublist hs).length_le
  rw [length_flatten_of_full (h.full c hc), h.count.2 c hc] at hlen
  have := Nat.le_mul_of_pos_right (rows.length + 1) hn
  omega

/-- Whether no bucket goes across a multiple of the page size. -/
def Aligned (o : Keyset α ρ κ) (n : ℕ) (rows : List α) : Prop :=
  ∀ k a b, 0 < k → rows[k * n - 1]? = some a → rows[k * n]? = some b → o.bucket a ≠ o.bucket b

/-- Behind the last row before a place where buckets change come the rows from there on. -/
theorem after_eq_drop {rows : List α} (hs : o.Sorted rows) {m : ℕ} {last : α} (hm : 0 < m)
    (hlast : rows[m - 1]? = some last)
    (hnew : ∀ b, rows[m]? = some b → o.bucket last ≠ o.bucket b) :
    o.after (o.bucket last) rows = rows.drop m := by
  have hlen : m ≤ rows.length := by
    have := (List.getElem?_eq_some_iff.1 hlast).1
    omega
  have hsplit : o.Sorted (rows.take m ++ rows.drop m) := by rwa [List.take_append_drop]
  have hend : (rows.take m).getLast? = some last := by
    rw [List.getLast?_eq_getElem?, List.length_take_of_le hlen, List.getElem?_take_of_lt (by omega),
      hlast]
  have hearly : (rows.take m).filter (fun a => o.bucket last < o.bucket a) = [] := by
    rw [List.filter_eq_nil_iff]
    intro x hx
    have hle := bucket_le_last (hs.sublist (List.take_sublist _ _)) hend x hx
    simpa using hle
  have hlate : (rows.drop m).filter (fun a => o.bucket last < o.bucket a) = rows.drop m := by
    rw [List.filter_eq_self]
    intro y hy
    cases hd : rows.drop m with
    | nil => simp [hd] at hy
    | cons b rest =>
      have hb : rows[m]? = some b := by
        rw [← List.head?_drop, hd, List.head?_cons]
      have hlt : o.rank last < o.rank b := by
        refine (List.pairwise_append.1 hsplit).2.2 last (List.mem_of_getLast? hend) b ?_
        rw [hd]
        exact List.mem_cons_self
      have hfirst : o.bucket last < o.bucket b :=
        lt_of_le_of_ne (o.bucket_mono _ _ hlt.le) (hnew b hb)
      have hrest := (List.pairwise_append.1 hsplit).2.1
      rw [hd] at hy hrest
      rcases List.mem_cons.1 hy with rfl | hy
      · simpa using hfirst
      · have hle := o.bucket_mono b y ((List.pairwise_cons.1 hrest).1 y hy).le
        simpa using hfirst.trans_le hle
  calc o.after (o.bucket last) rows
      = o.after (o.bucket last) (rows.take m ++ rows.drop m) := by rw [List.take_append_drop]
    _ = rows.drop m := by rw [after, List.filter_append, hearly, hlate, List.nil_append]

/-- As long as no bucket is torn, `k` pages are the first `k * n` rows. -/
theorem visit_of_aligned (hn : 0 < n) {rows : List α} (hs : o.Sorted rows) (ha : o.Aligned n rows)
    (k : ℕ) :
    (∀ c, (o.visit n (fun _ => rows) k).next = some c →
      (o.visit n (fun _ => rows) k).pages.flatten = rows.take (k * n) ∧
        o.after c rows = rows.drop (k * n)) ∧
    ((o.visit n (fun _ => rows) k).next = none →
      (o.visit n (fun _ => rows) k).pages.flatten = rows) := by
  induction k with
  | zero =>
    refine ⟨fun c hc => ?_, fun hnone => by simp [visit] at hnone⟩
    simp only [visit, Option.some.injEq] at hc
    subst hc
    simp [visit, after_start]
  | succ k ih =>
    rw [visit]
    generalize o.visit n (fun _ => rows) k = v at ih
    obtain ⟨pages, next⟩ := v
    cases next with
    | none => simpa [Visit.step] using ih
    | some c =>
      obtain ⟨hread, hrest⟩ := ih.1 c rfl
      simp only [Visit.step, hrest, List.flatten_append, List.flatten_singleton] at hread ⊢
      have htake : pages.flatten ++ (rows.drop (k * n)).take n = rows.take ((k + 1) * n) := by
        rw [hread, Nat.succ_mul, List.take_add]
      refine ⟨fun c' hc' => ⟨htake, ?_⟩, fun hend => ?_⟩
      · obtain ⟨hfull, last, hlast, rfl⟩ := nextOf_eq_some_iff.1 hc'
        have hindex : k * n + (n - 1) = (k + 1) * n - 1 := by
          rw [Nat.succ_mul]
          omega
        have hat : rows[(k + 1) * n - 1]? = some last := by
          rw [← hlast, List.getLast?_eq_getElem?, hfull, List.getElem?_take_of_lt (by omega),
            List.getElem?_drop, hindex]
        exact after_eq_drop hs (Nat.mul_pos k.succ_pos hn) hat fun b hb =>
          ha (k + 1) last b k.succ_pos hat hb
      · have hshort : (rows.drop (k * n)).length < n := by
          have hne := length_ne_of_nextOf_eq_none hn hend
          rw [List.length_take] at hne
          omega
        rw [hread, List.take_of_length_le hshort.le, List.take_append_drop]

/-- A walk that read all rows had its pages end where buckets change. -/
theorem Inv.aligned_of_visits_all (hn : 0 < n) {rows : List α} (hs : o.Sorted rows)
    {v : Visit α κ} {j : ℕ} (h : o.Inv n (fun _ => rows) v j) (hend : v.next = none)
    (hall : ∀ p ∈ rows, p ∈ v.pages.flatten) : o.Aligned n rows := by
  intro k a b hk ha hb
  have hflat : v.pages.flatten = rows :=
    List.Subset.antisymm_of_pairwise h.flatten_sorted hs (h.flatten_sublist hs).subset hall
  obtain ⟨init, last, hpages, hfull, hshort⟩ := h.short hend
  have hlen : rows.length = init.length * n + last.length := by
    rw [← hflat, hpages, List.flatten_append, List.length_append, length_flatten_of_full hfull,
      List.flatten_singleton]
  have hkn : k * n < rows.length := (List.getElem?_eq_some_iff.1 hb).1
  have hkinit : k ≤ init.length := by
    by_contra hlt
    have := Nat.mul_le_mul_right n (Nat.succ_le_of_lt (not_le.1 hlt))
    rw [Nat.succ_mul] at this
    omega
  -- The rows numbered below `k * n` are those of the first `k` pages.
  have htake : (v.pages.take k).flatten.length = k * n := by
    rw [hpages, List.take_append_of_le_length hkinit,
      length_flatten_of_full fun page hp => hfull page (List.mem_of_mem_take hp),
      List.length_take_of_le hkinit]
  have hsplit : rows = (v.pages.take k).flatten ++ (v.pages.drop k).flatten := by
    rw [← List.flatten_append, List.take_append_drop, hflat]
  have hpos : 0 < k * n := Nat.mul_pos hk hn
  rw [hsplit, List.getElem?_append_left (by omega)] at ha
  rw [hsplit, List.getElem?_append_right htake.le] at hb
  obtain ⟨early, hearly, hina⟩ := List.mem_flatten.1 (List.mem_of_getElem? ha)
  obtain ⟨late, hlate, hinb⟩ := List.mem_flatten.1 (List.mem_of_getElem? hb)
  have happart := h.apart
  rw [← List.take_append_drop k v.pages, List.pairwise_append] at happart
  exact (happart.2.2 early hearly late hlate a hina b hinb).ne

/-- A walk that has ended read every row exactly if its pages had to end where
buckets change. -/
theorem visits_all_iff (hn : 0 < n) {rows : List α} (hs : o.Sorted rows) {k : ℕ}
    (hend : (o.visit n (fun _ => rows) k).next = none) :
    (∀ p ∈ rows, p ∈ (o.visit n (fun _ => rows) k).pages.flatten) ↔ o.Aligned n rows := by
  refine ⟨(inv_visit hn (fun _ => hs) k).aligned_of_visits_all hn hs hend, fun ha p hp => ?_⟩
  rwa [(visit_of_aligned hn hs ha k).2 hend]

end Keyset
end FilmCatalog
