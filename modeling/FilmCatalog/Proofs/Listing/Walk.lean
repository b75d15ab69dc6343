import FilmCatalog.Page.Meta
import FilmCatalog.Proofs.Filter.Constructed
import FilmCatalog.Proofs.Listing.Keyset
import FilmCatalog.Proofs.Listing.Page

/-!
# Walks over a listing

A walk reads the page of a filter, takes the cursor that the page metadata
gives, and goes on with the filter behind it until there is none. Between two
readings posts may come and go.

The matching posts are a keyset: their bucket is the place of their cursor key,
with which their rank begins. So a walk over the catalog is a walk by cursor
(`walk_eq_visit`), and what holds of those holds of it.

Key definitions: `Walk`, `walk`, `PostFilter.keyset`, `PostFilter.LeftOut`, `Unpatched`.
Key theorems: `matching_withCursor`, `walk_eq_visit`, `walk_reads_in_order`,
`walk_visits_all_iff`.
-/

namespace FilmCatalog

open Sql

/-- How far a walk has come: the pages that were read, and the filter of the
next one unless the walk has ended. -/
structure Walk where
  pages : List (List Post)
  next : Option PostFilter

namespace Walk

/-- Every post that was read. -/
def posts (w : Walk) : List Post := w.pages.flatten

/-- Reads one more page, unless the walk has ended. -/
def step (D : Dialect) (t : Tables) (w : Walk) : Except StoreError Walk :=
  match w.next with
  | none => .ok w
  | some g => do
    let page ← t.page D g
    let info := PageMeta.ofPage g page.posts page.total
    pure ⟨w.pages ++ [page.posts], info.nextPageId.map g.withCursor⟩

end Walk

/-- The walk of a filter after some readings, the first of them from `ts 0`. -/
def walk (D : Dialect) (ts : ℕ → Tables) (f : PostFilter) : ℕ → Except StoreError Walk
  | 0 => .ok ⟨[], some f⟩
  | k + 1 => do
    let w ← walk D ts f k
    w.step D (ts k)

/-- Whether every post has an id of its own. -/
def Sql.Tables.DistinctIds (t : Tables) : Prop := (t.posts.map (·.id)).Nodup

instance (t : Tables) : Decidable t.DistinctIds := inferInstanceAs (Decidable (List.Nodup _))

/-- Whether posts come and go, but none ever changes. -/
def Unpatched (ts : ℕ → Tables) : Prop :=
  ∀ i j, ∀ a ∈ (ts i).posts, ∀ b ∈ (ts j).posts, a.id = b.id → (ts i).post a = (ts j).post b

namespace PostFilter

variable (f : PostFilter)

/-- Whether a post comes behind the last post of a page and has its cursor key. -/
def LeftOut (pages : List (List Post)) (p : Post) : Prop :=
  ∃ page ∈ pages, ∃ last, page.getLast? = some last ∧ f.rank last < f.rank p ∧
    f.cursorKey last = f.cursorKey p

/-! ## The keyset of a filter -/

theorem keyPlace_injective : Function.Injective f.keyPlace := by
  intro a b h
  unfold keyPlace at h
  cases hs : f.sort <;> simp [hs] at h <;> omega

theorem rank_mono {a b : Post} (h : f.rank a ≤ f.rank b) :
    f.keyPlace (f.cursorKey a) ≤ f.keyPlace (f.cursorKey b) := by
  rw [← not_lt] at h ⊢
  unfold rank rowOrder at h
  unfold keyPlace cursorKey
  cases hs : f.sort <;>
    simp only [hs, RowOrder.rank, List.cons_lt_cons_iff, List.not_lt_nil, and_false, or_false]
      at h ⊢ <;> omega

theorem id_eq_of_rank_eq {a b : Post} (h : f.rank a = f.rank b) : a.id = b.id := by
  unfold rank at h
  cases hs : f.rowOrder <;> simp [hs, RowOrder.rank] at h <;> omega

theorem lt_keyPlace (key : Int) : [] < f.keyPlace key := by
  unfold keyPlace
  cases f.sort <;> exact List.nil_lt_cons _ _

/-- The posts of a filter by rank, seen by cursors through the place of their key. -/
def keyset : Keyset Post (List Int) (List Int) where
  rank := f.rank
  bucket p := f.keyPlace (f.cursorKey p)
  start := []
  bucket_mono _ _ := f.rank_mono
  start_lt p := f.lt_keyPlace (f.cursorKey p)

theorem leftOut_iff_skipped (pages : List (List Post)) (p : Post) :
    f.LeftOut pages p ↔ f.keyset.Skipped pages p := by
  simp only [LeftOut, Keyset.Skipped, keyset, f.keyPlace_injective.eq_iff]

end PostFilter

namespace Sql.Tables

variable {D : Dialect} {t : Tables} {f : PostFilter}

theorem mem_matchingRows {r : PostRecord} :
    r ∈ t.matchingRows D f ↔ r ∈ t.posts ∧ f.Matches D t r := by
  rw [matchingRows, (List.mergeSort_perm _ _).mem_iff, List.mem_filter, decide_eq_true_iff]

theorem mem_matching {p : Post} :
    p ∈ t.matching D f ↔ ∃ r ∈ t.posts, f.Matches D t r ∧ t.post r = p := by
  simp only [matching, List.mem_map, mem_matchingRows, and_assoc]

theorem matching_sorted (ht : t.DistinctIds) : f.keyset.Sorted (t.matching D f) := by
  have hle : (t.matchingRows D f).Pairwise fun a b => f.rank (t.post a) ≤ f.rank (t.post b) := by
    have := @List.pairwise_mergeSort _ (fun a b => decide (f.rank (t.post a) ≤ f.rank (t.post b)))
      (by simpa using fun a b c => le_trans) (by simpa using fun a b => le_total _ _)
      (t.posts.filter fun r => f.Matches D t r)
    simpa [matchingRows] using this
  have hids : (t.matchingRows D f).Pairwise fun a b => a.id ≠ b.id := by
    have hnodup : ((t.posts.filter fun r => f.Matches D t r).map (·.id)).Nodup :=
      ht.sublist (List.filter_sublist.map _)
    have hperm : ((t.matchingRows D f).map (·.id)).Nodup :=
      ((List.mergeSort_perm _ _).map _).nodup_iff.2 hnodup
    exact List.pairwise_map.1 hperm
  refine List.pairwise_map.2 ((hle.and hids).imp fun {a b} h => lt_of_le_of_ne h.1 fun heq => ?_)
  exact h.2 (f.id_eq_of_rank_eq heq)

/-- Behind a cursor that is no earlier than its own, a filter matches the posts
whose bucket is behind that cursor. -/
theorem matching_withCursor (ht : t.DistinctIds) {c : Int}
    (hc : ∀ own ∈ f.cursor, f.keyPlace own ≤ f.keyPlace c) :
    t.matching D (f.withCursor c) = f.keyset.after (f.keyPlace c) (t.matching D f) := by
  have hmatches : ∀ r, (f.withCursor c).Matches D t r ↔
      f.Matches D t r ∧ f.keyPlace c < f.keyPlace (f.cursorKey (t.post r)) := by
    intro r
    constructor
    · intro h
      have hlt := h.cursor c rfl
      exact ⟨{ h with cursor := fun own hown => (hc own hown).trans_lt hlt }, hlt⟩
    · rintro ⟨h, hlt⟩
      exact { h with cursor := fun own hown => by cases hown; exact hlt }
  have hleft : f.keyset.Sorted (t.matching D (f.withCursor c)) :=
    matching_sorted (f := f.withCursor c) ht
  have hright : f.keyset.Sorted (f.keyset.after (f.keyPlace c) (t.matching D f)) :=
    (matching_sorted ht).sublist List.filter_sublist
  refine List.Pairwise.eq_of_mem_iff hleft hright fun p => ?_
  rw [Keyset.mem_after, mem_matching, mem_matching]
  simp only [hmatches]
  constructor
  · rintro ⟨r, hr, ⟨hm, hlt⟩, rfl⟩
    exact ⟨⟨r, hr, hm, rfl⟩, hlt⟩
  · rintro ⟨⟨r, hr, hm, rfl⟩, hlt⟩
    exact ⟨r, hr, ⟨hm, hlt⟩, rfl⟩

end Sql.Tables

/-! ## Walks by cursor -/

section
variable {D : Dialect} {f : PostFilter} {n : Int}

/-- A filter that a walk of `f` comes to, and the place of its cursor. -/
inductive PostFilter.Reached (f : PostFilter) : PostFilter → List Int → Prop where
  | start : Reached f f f.keyset.start
  | behind (c : Int) (h : ∀ own ∈ f.cursor, f.keyPlace own ≤ f.keyPlace c) :
      Reached f (f.withCursor c) (f.keyPlace c)

theorem PostFilter.Reached.matching_eq {g : PostFilter} {place : List Int} (h : f.Reached g place)
    {t : Tables} (ht : t.DistinctIds) :
    t.matching D g = f.keyset.after place (t.matching D f) := by
  cases h with
  | start => exact (Keyset.after_start _).symm
  | behind c hc => exact Sql.Tables.matching_withCursor ht hc

/-- Whether a walk over the catalog has come as far as a walk by cursor. -/
structure Walk.Agrees (f : PostFilter) (w : Walk) (v : Keyset.Visit Post (List Int)) : Prop where
  pages : w.pages = v.pages
  next : (w.next = none ∧ v.next = none) ∨
    ∃ g place, w.next = some g ∧ v.next = some place ∧ f.Reached g place

theorem nextCursor?_eq {g : PostFilter} (hn : g.limit = some n) (h0 : 0 < n) (page : List Post) :
    PageMeta.nextCursor? g page =
      if page.length = n.toNat then page.getLast?.map g.cursorKey else none := by
  have hlen : ((page.length : Int) = n) ↔ page.length = n.toNat := by omega
  unfold PageMeta.nextCursor?
  rw [hn]
  cases page.getLast? with
  | none => simp
  | some last => simp [hlen]

/-- One reading over the catalog is one reading by cursor. It never fails. -/
theorem agrees_step (hs : f.Seeded) (hn : f.limit = some n) (h0 : 0 < n) {t : Tables}
    (ht : t.DistinctIds) {w : Walk} {v : Keyset.Visit Post (List Int)} (h : w.Agrees f v) :
    ∃ w', w.step D t = .ok w' ∧ w'.Agrees f (v.step f.keyset n.toNat (t.matching D f)) := by
  rcases h.next with ⟨hw, hv⟩ | ⟨g, place, hw, hv, hg⟩
  · refine ⟨w, by simp [Walk.step, hw], ?_⟩
    simpa [Keyset.Visit.step, hv] using h
  · have hseed : g.Seeded := by cases hg <;> exact hs
    have hlimit : g.limit = some n := by cases hg <;> exact hn
    have hkey : g.cursorKey = f.cursorKey := by cases hg <;> rfl
    have hcursor : g.withCursor = f.withCursor := by cases hg <;> rfl
    have hpage : (ListingQuery.ofFilter g).limited (t.matching D g) =
        (f.keyset.after place (t.matching D f)).take n.toNat := by
      rw [hg.matching_eq ht]
      simp [ListingQuery.limited, ListingQuery.select, Select.limited, ListingQuery.ofFilter,
        hlimit]
    simp only [Walk.step, hw, Keyset.Visit.step, hv, page_eq D t hseed, hpage, ok_bind, pure_eq_ok]
    refine ⟨_, rfl, by rw [h.pages], ?_⟩
    set page := (f.keyset.after place (t.matching D f)).take n.toNat
    simp only [PageMeta.ofPage, nextCursor?_eq hlimit h0, Keyset.Visit.nextOf, hkey, hcursor]
    split
    · cases hl : page.getLast? with
      | none => exact Or.inl ⟨rfl, rfl⟩
      | some last =>
        refine Or.inr ⟨_, _, rfl, rfl, .behind _ fun own hown => ?_⟩
        have hin : last ∈ t.matching D f :=
          (Keyset.page_sublist place _).subset (List.mem_of_getLast? hl)
        obtain ⟨r, -, hm, rfl⟩ := Sql.Tables.mem_matching.1 hin
        exact (hm.cursor own hown).le
    · exact Or.inl ⟨rfl, rfl⟩

/-- A walk over the catalog is a walk by cursor over the matching posts. -/
theorem walk_eq_visit (hs : f.Seeded) (hn : f.limit = some n) (h0 : 0 < n) {ts : ℕ → Tables}
    (ht : ∀ k, (ts k).DistinctIds) (k : ℕ) :
    ∃ w, walk D ts f k = .ok w ∧
      w.Agrees f (f.keyset.visit n.toNat (fun j => (ts j).matching D f) k) := by
  induction k with
  | zero => exact ⟨⟨[], some f⟩, rfl, rfl, Or.inr ⟨f, f.keyset.start, rfl, rfl, .start⟩⟩
  | succ k ih =>
    obtain ⟨w, hw, hagrees⟩ := ih
    obtain ⟨w', hw', hagrees'⟩ := agrees_step (D := D) hs hn h0 (ht k) hagrees
    exact ⟨w', by rw [walk, hw, ok_bind, hw'], hagrees'⟩

theorem PostFilter.Constructed.seeded (hf : f.Constructed) (hs : ∀ s, f.seed = some s → 0 < s) :
    f.Seeded := by
  intro hrandom
  obtain ⟨s, hseed⟩ := Option.isSome_iff_exists.1 (hf.seed_isSome_iff.2 hrandom)
  exact ⟨s, hseed, hs s hseed⟩

theorem Walk.Agrees.ended_iff {w : Walk} {v : Keyset.Visit Post (List Int)} (h : w.Agrees f v) :
    w.next = none ↔ v.next = none := by
  rcases h.next with ⟨hw, hv⟩ | ⟨g, place, hw, hv, -⟩ <;> simp [hw, hv]

/-- A post that matches at every reading of a walk that has ended is missing
exactly if it was left out. -/
theorem missing_iff_leftOut {ts : ℕ → Tables} {w : Walk} {v : Keyset.Visit Post (List Int)} {k : ℕ}
    (h : w.Agrees f v) (hv : f.keyset.Inv n.toNat (fun j => (ts j).matching D f) v k)
    (hend : w.next = none) {p : Post} (hp : ∀ j < w.pages.length, p ∈ (ts j).matching D f) :
    p ∉ w.posts ↔ f.LeftOut w.pages p := by
  rw [Walk.posts, f.leftOut_iff_skipped, h.pages]
  exact hv.missing_iff_skipped (h.ended_iff.1 hend) fun j hj => hp j (by rwa [h.pages])

/-- No id is read twice where no post is changed. -/
theorem nodup_ids {ts : ℕ → Tables} (hp : Unpatched ts) {w : Walk}
    {v : Keyset.Visit Post (List Int)} {k : ℕ} (h : w.Agrees f v)
    (hv : f.keyset.Inv n.toNat (fun j => (ts j).matching D f) v k) :
    (w.posts.map (·.id)).Nodup := by
  rw [Walk.posts, h.pages]
  refine List.pairwise_map.2 (hv.flatten_sorted.imp_of_mem fun {a b} ha hb hlt heq => ?_)
  obtain ⟨i, -, hi⟩ := hv.found a ha
  obtain ⟨j, -, hj⟩ := hv.found b hb
  obtain ⟨r, hr, -, rfl⟩ := Sql.Tables.mem_matching.1 hi
  obtain ⟨r', hr', -, rfl⟩ := Sql.Tables.mem_matching.1 hj
  rw [hp i j r hr r' hr' heq] at hlt
  exact lt_irrefl _ hlt

theorem unpatched_const {t : Tables} (ht : t.DistinctIds) : Unpatched fun _ => t := by
  intro _ _ a ha b hb hid
  rw [List.inj_on_of_nodup_map ht ha hb hid]

/-- Over tables that stay the same, a walk ends. It reads matching posts in
their order, each at most once, and leaves out those that come behind the last
post of a page with the cursor key of that post. Where posts come and go
between the readings, still no id is read twice, and a post that matches at
every reading of a walk that has ended is missing only for that reason. Behind
whatever cursor, a reading is asked for by the statement whose rows these are,
with its conditions, its sort keys and its limit. -/
theorem walk_reads_in_order (D : Dialect) (f : PostFilter) (n : Int) (hf : f.Constructed)
    (hn : f.limit = some n) (hs : ∀ s, f.seed = some s → 0 < s) :
    (∀ cursor : Option Int, (ListingQuery.ofFilter { f with cursor }).select.Writes
      (ListingQuery.ofFilter { f with cursor })) ∧
    (∀ t : Tables, t.DistinctIds →
      (ListingQuery.ofFilter f).found D t = .ok ((t.matchingRows D f).map t.joinedRow) ∧
      ∃ k w, walk D (fun _ => t) f k = .ok w ∧ w.next = none ∧
        w.posts.Sublist (t.matching D f) ∧ (w.posts.map (·.id)).Nodup ∧
        ∀ p ∈ t.matching D f, p ∉ w.posts ↔ f.LeftOut w.pages p) ∧
    ∀ ts : ℕ → Tables, (∀ k, (ts k).DistinctIds) → Unpatched ts →
      ∀ k, ∃ w, walk D ts f k = .ok w ∧ (w.posts.map (·.id)).Nodup ∧
        (w.next = none → ∀ p, (∀ j < w.pages.length, p ∈ (ts j).matching D f) →
          (p ∉ w.posts ↔ f.LeftOut w.pages p)) := by
  have hseed := hf.seeded hs
  have h0 := hf.limit_pos n hn
  have hpos : 0 < n.toNat := by omega
  have hinv := fun (ts : ℕ → Tables) (ht : ∀ k, (ts k).DistinctIds) =>
    Keyset.inv_visit (o := f.keyset) hpos
      (fun j => Sql.Tables.matching_sorted (D := D) (f := f) (ht j))
  refine ⟨fun _ => writes_select _, ?_, ?_⟩
  · intro t ht
    refine ⟨ListingQuery.found_eq D t hseed, ?_⟩
    have hsorted : f.keyset.Sorted (t.matching D f) := Sql.Tables.matching_sorted ht
    obtain ⟨k, hk⟩ := Keyset.exists_ended hpos hsorted
    obtain ⟨w, hw, hagrees⟩ := walk_eq_visit (D := D) hseed hn h0 (fun _ => ht) k
    have hv := hinv (fun _ => t) (fun _ => ht) k
    have hend := hagrees.ended_iff.2 hk
    refine ⟨k, w, hw, hend, ?_, nodup_ids (unpatched_const ht) hagrees hv, fun p hp => ?_⟩
    · rw [Walk.posts, hagrees.pages]
      exact hv.flatten_sublist hsorted
    · exact missing_iff_leftOut hagrees hv hend fun _ _ => hp
  · intro ts ht hp k
    obtain ⟨w, hw, hagrees⟩ := walk_eq_visit (D := D) hseed hn h0 ht k
    exact ⟨w, hw, nodup_ids hp hagrees (hinv ts ht k), fun hend p hpresent =>
      missing_iff_leftOut hagrees (hinv ts ht k) hend hpresent⟩

/-- Four posts without children. Two have the same time and score. -/
def Sql.Tables.tied : Tables where
  posts := [.bare 1 5 (-9), .bare 2 5 (-9), .bare 3 8 5, .bare 4 3 12]
  colors := []
  keywords := []

/-- Two of these posts at first, all of them later. -/
def Sql.Tables.growing (k : ℕ) : Tables :=
  if k = 0 then { tied with posts := tied.posts.take 2 } else tied

/-- One post at a time in the random order of a seed. -/
def PostFilter.singly : PostFilter :=
  { everything with limit := some 1, sort := .random, seed := some 7 }

theorem constructed_singly : PostFilter.singly.Constructed :=
  @PostFilter.Constructed.build (fun _ => firstSeed)
    { limit := some 1, sort := some .random, seed := some 7 } _ (by
      simp [PostFilter.build, seedFor, colorPredicates, padPercents, colorSet, keywordSet,
        dropRepeats, Bounds.checked, PostFilter.singly, PostFilter.everything, Bounds.unbounded])

theorem walks_of_singly :
    PostFilter.singly.Constructed ∧ PostFilter.singly.limit = some 1 ∧
      (∀ s, PostFilter.singly.seed = some s → 0 < s) ∧
      (∃ k w, walk .plain (fun _ => .tied) .singly k = .ok w ∧ w.next = none ∧
        w.posts.Sublist (Sql.Tables.tied.matching .plain .singly)) ∧
      ∀ k, ∃ w, walk .plain .growing .singly k = .ok w ∧ (w.posts.map (·.id)).Nodup := by
  have hs : ∀ s, PostFilter.singly.seed = some s → 0 < s := by simp [PostFilter.singly]
  have htied : Sql.Tables.tied.DistinctIds := by decide
  have hgrowing : ∀ k, (Sql.Tables.growing k).DistinctIds := by
    intro k
    unfold Sql.Tables.growing
    split <;> decide
  have hunpatched : Unpatched Sql.Tables.growing := by
    have hsub : ∀ k, ∀ r ∈ (Sql.Tables.growing k).posts, r ∈ Sql.Tables.tied.posts ∧
        (Sql.Tables.growing k).post r = Sql.Tables.tied.post r := by
      intro k r hr
      by_cases hk : k = 0
      · simp only [Sql.Tables.growing, if_pos hk] at hr ⊢
        exact ⟨List.mem_of_mem_take hr, rfl⟩
      · simp only [Sql.Tables.growing, if_neg hk] at hr ⊢
        exact ⟨hr, trivial⟩
    intro i j a ha b hb hid
    rw [(hsub i a ha).2, (hsub j b hb).2]
    exact unpatched_const htied 0 0 a (hsub i a ha).1 b (hsub j b hb).1 hid
  obtain ⟨-, hstill, hmoving⟩ := walk_reads_in_order .plain .singly 1 constructed_singly rfl hs
  obtain ⟨-, k, w, hw, hend, hsub, -⟩ := hstill .tied htied
  refine ⟨constructed_singly, rfl, hs, ⟨k, w, hw, hend, hsub⟩, fun k => ?_⟩
  obtain ⟨w, hw, hnodup, -⟩ := hmoving .growing hgrowing hunpatched k
  exact ⟨w, hw, hnodup⟩

/-- A walk over tables that stay the same ends, and it visits every matching
post exactly if no bucket goes across a multiple of the limit. -/
theorem visits_all_iff_aligned (hs : f.Seeded) (hn : f.limit = some n) (h0 : 0 < n) {t : Tables}
    (ht : t.DistinctIds) :
    ∃ k w, walk D (fun _ => t) f k = .ok w ∧ w.next = none ∧
      ((∀ p ∈ t.matching D f, p ∈ w.posts) ↔ f.keyset.Aligned n.toNat (t.matching D f)) := by
  have hpos : 0 < n.toNat := by omega
  have hsorted : f.keyset.Sorted (t.matching D f) := Sql.Tables.matching_sorted ht
  obtain ⟨k, hk⟩ := Keyset.exists_ended hpos hsorted
  obtain ⟨w, hw, hagrees⟩ := walk_eq_visit (D := D) hs hn h0 (fun _ => ht) k
  refine ⟨k, w, hw, hagrees.ended_iff.2 hk, ?_⟩
  rw [Walk.posts, hagrees.pages]
  exact Keyset.visits_all_iff hpos hsorted hk

/-- A walk over tables that stay the same visits every matching post exactly if
no two posts with one cursor key stand on both sides of a multiple of the limit.
Its readings are asked for by the statements whose rows they are. -/
theorem walk_visits_all_iff (D : Dialect) (t : Tables) (f : PostFilter) (n : Int)
    (hf : f.Constructed) (hn : f.limit = some n) (hs : ∀ s, f.seed = some s → 0 < s)
    (ht : t.DistinctIds) :
    (∀ cursor : Option Int, (ListingQuery.ofFilter { f with cursor }).select.Writes
      (ListingQuery.ofFilter { f with cursor })) ∧
    ∃ k w, walk D (fun _ => t) f k = .ok w ∧ w.next = none ∧
      ((∀ p ∈ t.matching D f, p ∈ w.posts) ↔
        ∀ i a b, 0 < i → (t.matching D f)[i * n.toNat - 1]? = some a →
          (t.matching D f)[i * n.toNat]? = some b → f.cursorKey a ≠ f.cursorKey b) := by
  obtain ⟨k, w, hw, hend, hiff⟩ :=
    visits_all_iff_aligned (D := D) (hf.seeded hs) hn (hf.limit_pos n hn) ht
  refine ⟨fun _ => writes_select _, k, w, hw, hend, hiff.trans ?_⟩
  simp only [Keyset.Aligned, PostFilter.keyset, ne_eq, f.keyPlace_injective.eq_iff]

theorem visits_all_of_tied :
    PostFilter.singly.Constructed ∧ PostFilter.singly.limit = some 1 ∧
      Sql.Tables.tied.DistinctIds ∧
      ∃ k w, walk .plain (fun _ => .tied) .singly k = .ok w ∧ w.next = none ∧
        ((∀ p ∈ Sql.Tables.tied.matching .plain .singly, p ∈ w.posts) ↔
          ∀ i a b, 0 < i → (Sql.Tables.tied.matching .plain .singly)[i * 1 - 1]? = some a →
            (Sql.Tables.tied.matching .plain .singly)[i * 1]? = some b →
            PostFilter.singly.cursorKey a ≠ PostFilter.singly.cursorKey b) := by
  have hs : ∀ s, PostFilter.singly.seed = some s → 0 < s := by simp [PostFilter.singly]
  have ht : Sql.Tables.tied.DistinctIds := by decide
  exact ⟨constructed_singly, rfl, ht,
    (walk_visits_all_iff .plain .tied .singly 1 constructed_singly rfl hs ht).2⟩

/-- Two posts of one score. -/
def Sql.Tables.twins : Tables where
  posts := [.bare 1 10 1001, .bare 2 10 1002]
  colors := []
  keywords := []

/-- The best posts, one at a time. -/
def PostFilter.best : PostFilter := { everything with limit := some 1, sort := .score }

/-- The walk over two posts of one score ends without one of them: its first
page ends between them, and the next one begins behind their score. -/
theorem twin_unread :
    ∃ k w, walk .plain (fun _ => .twins) .best k = .ok w ∧ w.next = none ∧
      ∃ p ∈ Sql.Tables.twins.matching .plain .best, p ∉ w.posts := by
  have ht : Sql.Tables.twins.DistinctIds := by decide
  have hs : PostFilter.best.Seeded := fun h => by cases h
  obtain ⟨k, w, hw, hend, hiff⟩ := visits_all_iff_aligned (D := .plain) hs rfl (by decide) ht
  refine ⟨k, w, hw, hend, ?_⟩
  have hlen : (Sql.Tables.twins.matching .plain .best).length = 2 := by
    rw [Sql.Tables.matching, List.length_map, Sql.Tables.matchingRows, List.length_mergeSort]
    decide +kernel
  have hscore : ∀ p ∈ Sql.Tables.twins.matching .plain .best, PostFilter.best.cursorKey p = 10 := by
    intro p hp
    obtain ⟨r, hr, -, rfl⟩ := Sql.Tables.mem_matching.1 hp
    have hsame : ∀ r ∈ Sql.Tables.twins.posts, r.score = 10 := by decide
    exact hsame r hr
  obtain ⟨a, b, hab⟩ := List.length_eq_two.1 hlen
  by_contra hall
  push Not at hall
  have hne := hiff.1 hall 1 a b Nat.one_pos (by rw [hab]; rfl) (by rw [hab]; rfl)
  refine hne (congrArg PostFilter.best.keyPlace ?_)
  rw [hscore a (by simp [hab]), hscore b (by simp [hab])]

end

end FilmCatalog
