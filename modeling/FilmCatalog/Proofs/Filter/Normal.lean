import FilmCatalog.Proofs.Filter.Acceptance
import FilmCatalog.Proofs.Filter.Constructed
import FilmCatalog.Proofs.Filter.Sets
import FilmCatalog.Proofs.Text.Trim

/-!
# The normal form of filters

However a filter is made and changed, its sets are strictly ascending, its texts
are trimmed and not blank, its ranges are not reversed and its numbers are
finite (`PostFilter.Normal`). Accepted parameters are turned into a filter in
this form, and other flags, a cursor and a page size keep it. The seed stays the
one that the filter was built with.

Key definitions: `ColorPredicate.Before`, `PostFilter.Normal`, `PostFilter.Derived`.
Key theorems: `PostFilter.normal_toFilter`, `PostFilter.Normal.withPageSize`,
`PostFilter.Constructed.normal`, `constructed_normal`.
-/

namespace FilmCatalog

/-! ## Sets in strictly ascending order -/

theorem idSet_ascending (ids : List Int) : (idSet ids).Pairwise (· < ·) :=
  orderedSet_ascending (fun _ _ => decide_eq_true_iff) ids

theorem keywordSet_ascending (words : List String) : (keywordSet words).Pairwise (· < ·) :=
  orderedSet_ascending (fun _ _ => decide_eq_true_iff) _

theorem neat_of_mem_keywordSet {words : List String} {word : String}
    (h : word ∈ keywordSet words) : Text.Neat word := by
  rw [keywordSet_eq, mem_orderedSet (likeness_of_linearOrder fun a b => decide_eq_true_iff)] at h
  obtain ⟨w, -, hw⟩ := List.mem_filterMap.1 h.1
  exact Text.neat_of_nonBlank? hw

namespace ColorPredicate

/-- The order by name, then by the value of the share. -/
def Before (a b : ColorPredicate) : Prop :=
  a.name < b.name ∨ a.name = b.name ∧ a.minPercent.lt b.minPercent = true

/-- Of two predicates in order that are not the same, one comes strictly before
the other. -/
theorem before_of_le {a b : ColorPredicate} (ha : a.minPercent.IsShare)
    (hb : b.minPercent.IsShare) (hle : le a b = true) (hsame : same a b = false) :
    a.Before b := by
  rw [le_iff, place_le_iff] at hle
  rcases hle with hname | ⟨hname, hrank⟩
  · exact .inl hname
  · have hkey := Double.key_of_rank_le hrank
    have hne : ¬a.minPercent.equal b.minPercent = true := fun h => by
      rw [same_iff.2 ⟨hname, h⟩] at hsame
      cases hsame
    simp only [Double.equal, ha.isNaN, hb.isNaN, Bool.not_false, Bool.true_and,
      decide_eq_true_eq] at hne
    refine .inr ⟨hname, ?_⟩
    simp only [Double.lt, ha.isNaN, hb.isNaN, Bool.not_false, Bool.true_and, decide_eq_true_eq]
    omega

end ColorPredicate

theorem mem_padPercents {names : List String} {percents : List Double} {pair : String × Double}
    (h : pair ∈ padPercents names percents) : pair.2 ∈ percents ∨ pair.2 = .zero false := by
  induction names generalizing percents with
  | nil => cases h
  | cons name names ih =>
    cases percents with
    | nil =>
      rcases List.mem_cons.1 h with rfl | h
      · exact .inr rfl
      · exact ih h
    | cons percent percents =>
      rcases List.mem_cons.1 h with rfl | h
      · exact .inl List.mem_cons_self
      · exact (ih h).imp_left (List.mem_cons_of_mem _)

/-! ## The normal form -/

namespace PostFilter

/-- Whether a filter is in normal form. -/
structure Normal (f : PostFilter) : Prop where
  limit_positive : ∀ n ∈ f.limit, 0 < n
  seed_random : f.seed.isSome = true ↔ f.sort = .random
  ids_ascending : ∀ ids ∈ f.ids, ids.Pairwise (· < ·)
  keywords_ascending : f.keywords.Pairwise (· < ·)
  keywords_neat : ∀ word ∈ f.keywords, Text.Neat word
  colors_ascending : f.colors.Pairwise ColorPredicate.Before
  colors_neat : ∀ c ∈ f.colors, Text.Neat c.name
  colors_shares : ∀ c ∈ f.colors, c.minPercent.IsShare
  title_neat : ∀ title ∈ f.title, Text.Neat title
  author_marked : ∀ author ∈ f.author, Author.Marked author ∧ Text.Trimmed author
  width_ordered : ∀ low ∈ f.width.min, ∀ high ∈ f.width.max, low ≤ high
  height_ordered : ∀ low ∈ f.height.min, ∀ high ∈ f.height.max, low ≤ high
  ratio_finite : ∀ x, x ∈ f.aspectRatio.min ∨ x ∈ f.aspectRatio.max → x.isFinite = true
  ratio_ordered : ∀ low ∈ f.aspectRatio.min, ∀ high ∈ f.aspectRatio.max, low.key ≤ high.key

theorem normal_everything : everything.Normal where
  limit_positive := by simp [everything]
  seed_random := by simp [everything]
  ids_ascending := by simp [everything]
  keywords_ascending := .nil
  keywords_neat := by simp [everything]
  colors_ascending := .nil
  colors_neat := by simp [everything]
  colors_shares := by simp [everything]
  title_neat := by simp [everything]
  author_marked := by simp [everything]
  width_ordered := by simp [everything, Bounds.unbounded]
  height_ordered := by simp [everything, Bounds.unbounded]
  ratio_finite := by simp [everything, Bounds.unbounded]
  ratio_ordered := by simp [everything, Bounds.unbounded]

theorem normal_byIds (ids : List Int) : (byIds ids).Normal :=
  { normal_everything with
    ids_ascending := fun _ h => Option.mem_some_iff.1 h ▸ idSet_ascending ids }

section

variable {p : FilterParams} (h : p.Accepted)

include h

theorem shares_of_accepted {c : ColorPredicate} (hc : c ∈ namedPairs p.pairs) :
    c.minPercent.IsShare := by
  obtain ⟨pair, hpair, -, hpercent⟩ := mem_namedPairs.1 hc
  rw [← hpercent]
  rcases mem_padPercents hpair with hmem | hzero
  · exact h.shares _ hmem
  · rw [hzero]
    decide

/-- Accepted parameters are turned into a filter in normal form. -/
theorem normal_toFilter (seedSource : Unit → Int) : (p.toFilter seedSource).Normal where
  limit_positive n hn := by
    have hpos := (Option.filter_eq_some_iff.1 hn).2
    simpa using hpos
  seed_random := by
    by_cases hrandom : p.order = .random <;> simp [FilterParams.toFilter, hrandom]
  ids_ascending ids hids := by
    obtain ⟨given, -, rfl⟩ := Option.map_eq_some_iff.1 hids
    exact idSet_ascending given
  keywords_ascending := keywordSet_ascending p.keywords
  keywords_neat _ := neat_of_mem_keywordSet
  colors_ascending := by
    refine (pairwise_orderedSet ColorPredicate.likeness (namedPairs p.pairs)).imp_of_mem ?_
    intro a b ha hb hab
    exact ColorPredicate.before_of_le (shares_of_accepted h (mem_namedPairs_of_mem_colorSet ha))
      (shares_of_accepted h (mem_namedPairs_of_mem_colorSet hb)) hab.1 hab.2
  colors_neat c hc := by
    obtain ⟨pair, -, hname, -⟩ := mem_namedPairs.1 (mem_namedPairs_of_mem_colorSet hc)
    exact Text.neat_of_nonBlank? hname
  colors_shares c hc := shares_of_accepted h (mem_namedPairs_of_mem_colorSet hc)
  title_neat title htitle := by
    obtain ⟨given, -, hgiven⟩ := Option.bind_eq_some_iff.1 htitle
    exact Text.neat_of_nonBlank? hgiven
  author_marked author hauthor := by
    obtain ⟨name, -, rfl⟩ := Option.map_eq_some_iff.1 hauthor
    exact ⟨Author.marked_stored name, Author.trimmed_stored name⟩
  width_ordered := h.width_le
  height_ordered := h.height_le
  ratio_finite := h.ratio_finite
  ratio_ordered low hlow high hhigh := by
    have hlt := h.ratio_le low hlow high hhigh
    rw [Double.lt, Double.isNaN_of_isFinite (h.ratio_finite high (.inr hhigh)),
      Double.isNaN_of_isFinite (h.ratio_finite low (.inl hlow))] at hlt
    simpa using hlt

end

namespace Normal

theorem withPageSize {f : PostFilter} (h : f.Normal) (default max : Int) :
    (f.withPageSize default max).Normal :=
  { h with
    limit_positive := by
      intro n hn
      simp only [PostFilter.withPageSize] at hn
      split at hn
      · rename_i hpos
        exact Option.mem_some_iff.1 hn ▸ hpos
      · cases hn }

end Normal

/-- The filters that a filter can be changed into. -/
inductive Derived (g : PostFilter) : PostFilter → Prop where
  | same : Derived g g
  | withFlags {f : PostFilter} (h : Derived g f) (nsfw grayscale sprocket : Option Bool) :
      Derived g (f.withFlags nsfw grayscale sprocket)
  | withCursor {f : PostFilter} (h : Derived g f) (cursor : Int) : Derived g (f.withCursor cursor)
  | withPageSize {f : PostFilter} (h : Derived g f) (default max : Int) :
      Derived g (f.withPageSize default max)

theorem Derived.seed_eq {f g : PostFilter} (h : Derived g f) : f.seed = g.seed := by
  induction h with
  | same => rfl
  | withFlags _ _ _ _ ih => exact ih
  | withCursor _ _ ih => exact ih
  | withPageSize _ _ _ ih => exact ih

/-- Every filter that can be constructed is in normal form. -/
theorem Constructed.normal {f : PostFilter} (h : f.Constructed) : f.Normal := by
  induction h with
  | everything => exact normal_everything
  | byIds ids => exact normal_byIds ids
  | build h =>
    obtain ⟨haccepted, rfl⟩ := build_eq_ok_iff.1 h
    exact normal_toFilter haccepted _
  | withFlags _ _ _ _ ih => exact { ih with }
  | withCursor _ _ ih => exact { ih with }
  | withPageSize _ default max ih => exact ih.withPageSize default max

/-- A seed that was given or drawn from a source of positive numbers is positive. -/
theorem seed_positive {seedSource : Unit → Int} {p : FilterParams} {g : PostFilter}
    (h : build seedSource p = .ok g) (hsource : p.seed = none → 0 < seedSource ()) :
    ∀ s ∈ g.seed, 0 < s := by
  obtain ⟨haccepted, rfl⟩ := build_eq_ok_iff.1 h
  intro s hs
  by_cases hrandom : p.order = .random
  · rw [FilterParams.toFilter, if_pos hrandom, Option.mem_some_iff] at hs
    subst hs
    cases hseed : p.seed with
    | none => exact hsource hseed
    | some seed => exact haccepted.seed_pos hrandom seed hseed
  · rw [FilterParams.toFilter, if_neg hrandom] at hs
    cases hs

/-- The seeds that one is drawn from are positive. -/
theorem randomSeeds_positive : ∀ s ∈ randomSeeds, 0 < s := by decide

theorem seed_positive_of_drawn {seedSource : Unit → Int} (hsource : seedSource () ∈ randomSeeds)
    {p : FilterParams} {g : PostFilter} (h : build seedSource p = .ok g) : ∀ s ∈ g.seed, 0 < s :=
  seed_positive h fun _ => randomSeeds_positive _ hsource

end PostFilter

/-- A filter that was constructed is in normal form, and its seed is positive if it
was given with the request or drawn from a source of positive numbers, as that of
the program is. -/
theorem constructed_normal {f : PostFilter} (h : f.Constructed) :
    f.Normal ∧ ∀ (seedSource : Unit → Int) (p : FilterParams) (g : PostFilter),
      PostFilter.build seedSource p = .ok g → g.Derived f →
        (p.seed = none → 0 < seedSource ()) ∨ seedSource () ∈ randomSeeds →
          ∀ s ∈ f.seed, 0 < s := by
  refine ⟨h.normal, fun seedSource p g hbuild hderived hsource => ?_⟩
  rw [hderived.seed_eq]
  rcases hsource with hpositive | hdrawn
  · exact PostFilter.seed_positive hbuild hpositive
  · exact PostFilter.seed_positive_of_drawn hdrawn hbuild

/-! ## A request with repetitions and blanks -/

/-- Parameters that are not in normal form in any field. -/
def untidyParams : FilterParams where
  limit := some (-3)
  sort := some .random
  seed := some 29
  ids := some [3, 1, 3]
  title := some " dusk "
  author := some " ada "
  colors := ["red", " ", "red", "blue"]
  minColorPercents := [.zero false, .zero true, .zero true]
  keywords := ["night ", "", "fog", "night"]
  minWidth := some 640
  maxWidth := some 640
  minAspectRatio := some (.zero true)
  maxAspectRatio := some (.zero false)

theorem untidyParams_accepted : untidyParams.Accepted where
  seed_pos := by decide
  ratio_finite := by
    rintro x (hx | hx) <;> cases hx <;> decide
  paired := by decide
  shares := by decide
  width_le := by decide
  height_le := by decide
  ratio_le := by decide

/-- The filter of these parameters with other flags and without a limit. -/
def tidiedFilter : PostFilter :=
  ((untidyParams.toFilter fun _ => 0).withFlags (some false) none none).withPageSize 20 (-1)

theorem tidied_is_normal :
    tidiedFilter.Constructed ∧ tidiedFilter.Normal ∧
      PostFilter.build (fun _ => 0) untidyParams = .ok (untidyParams.toFilter fun _ => 0) ∧
      (untidyParams.toFilter fun _ => 0).Derived tidiedFilter ∧
      tidiedFilter.seed = some 29 ∧ ∀ s ∈ tidiedFilter.seed, 0 < s := by
  have hbuild : PostFilter.build (fun _ => 0) untidyParams =
      .ok (untidyParams.toFilter fun _ => 0) :=
    PostFilter.build_eq_ok_iff.2 ⟨untidyParams_accepted, rfl⟩
  have hconstructed : tidiedFilter.Constructed :=
    ((PostFilter.Constructed.build hbuild).withFlags (some false) none none).withPageSize 20 (-1)
  have hderived : (untidyParams.toFilter fun _ => 0).Derived tidiedFilter :=
    (PostFilter.Derived.same.withFlags (some false) none none).withPageSize 20 (-1)
  obtain ⟨hnormal, hseed⟩ := constructed_normal hconstructed
  refine ⟨hconstructed, hnormal, hbuild, hderived, rfl, hseed _ _ _ hbuild hderived (.inl ?_)⟩
  intro hnone
  cases hnone

end FilmCatalog
