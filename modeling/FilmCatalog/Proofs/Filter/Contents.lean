import FilmCatalog.Proofs.Filter.Acceptance
import FilmCatalog.Proofs.Filter.Constructed
import FilmCatalog.Proofs.Filter.Sets
import FilmCatalog.Proofs.Text.Trim

/-!
# What a filter keeps of its request

Parameters are refused for a few reasons (`FilterParams.Refused`) and for no other.
The filter of all others loses nothing of them (`PostFilter.Keeps`): its sets have
what was given, and a color has the share that was given in its place, so a blank
color in between moves no share. A share is kept as a value, the zeros of both
signs being one.

The source of seeds is a step of the program that may do anything, so that asking it
can be told from not asking it (`PostFilter.buildAsking`). It is asked once for a
random order without a seed, also if the parameters are refused later, and otherwise
never.

Key definitions: `FilterParams.Refused`, `PostFilter.Keeps`, `PostFilter.buildAsking`.
Key theorems: `FilterParams.refused_iff`, `PostFilter.keeps_toFilter`,
`PostFilter.run_buildAsking`, `PostFilter.build_loses_nothing`.
-/

namespace FilmCatalog

/-- Every element that is the same as itself is the same as one that the set has. -/
theorem Likeness.exists_mem_orderedSet {α : Type} {le same : α → α → Bool}
    (h : Likeness le same) {xs : List α} {c : α} (hc : c ∈ xs) (hrefl : same c c = true) :
    ∃ a ∈ orderedSet le same xs, same a c = true := by
  have hsorted := h.sorted (xs.filter fun b => same b c)
  have hmem : ∀ b, b ∈ (xs.filter fun b => same b c).mergeSort le ↔ b ∈ xs ∧ same b c = true :=
    fun b => (List.mergeSort_perm _ le).mem_iff.trans List.mem_filter
  -- the least of all that are the same as `c`
  cases hleast : (xs.filter fun b => same b c).mergeSort le with
  | nil =>
    have hempty := (hmem c).2 ⟨hc, hrefl⟩
    rw [hleast] at hempty
    cases hempty
  | cons a rest =>
    rw [hleast] at hsorted hmem
    obtain ⟨ha, hsame⟩ := (hmem a).1 List.mem_cons_self
    refine ⟨a, (mem_orderedSet h).2 ⟨ha, fun b hb hba => ?_⟩, hsame⟩
    have hba' : b ∈ a :: rest := (hmem b).2 ⟨hb, h.same_trans b a c hba hsame⟩
    rcases List.mem_cons.1 hba' with rfl | hrest
    · simpa using h.le_total b b
    · exact (List.pairwise_cons.1 hsorted).1 b hrest

/-- Each color has the share in its place, or zero behind the last share. -/
theorem getElem?_padPercents (names : List String) (percents : List Double) (i : ℕ) :
    (padPercents names percents)[i]? =
      names[i]?.map fun name => (name, percents[i]?.getD (.zero false)) := by
  induction names generalizing percents i with
  | nil => rfl
  | cons name names ih =>
    cases percents with
    | nil =>
      cases i with
      | zero => rfl
      | succ i => simpa [padPercents] using ih [] i
    | cons percent percents =>
      cases i with
      | zero => rfl
      | succ i => simpa [padPercents] using ih percents i

theorem mem_keywordSet {words : List String} {word : String} :
    word ∈ keywordSet words ↔ ∃ given ∈ words, Text.trim given = word ∧ ¬Text.Blank given := by
  rw [keywordSet_eq, mem_orderedSet (likeness_of_linearOrder fun a b => decide_eq_true_iff),
    List.mem_filterMap]
  simp only [Text.nonBlank?_eq_some_iff]
  refine and_iff_left_of_imp fun _ b _ hb => ?_
  rw [beq_iff_eq] at hb
  exact decide_eq_true hb.ge

/-! ## Refused parameters -/

namespace FilterParams

/-- Why parameters are refused. -/
inductive Refused (p : FilterParams) : Prop
  | seed {s : ℤ} (horder : p.order = .random) (hseed : p.seed = some s) (h : s ≤ 0)
  | ratio {x : Double} (hx : p.minAspectRatio = some x ∨ p.maxAspectRatio = some x)
      (h : x.isFinite = false)
  | spare (h : p.colors.length < p.minColorPercents.length)
  | percent {x : Double} (hx : x ∈ p.minColorPercents)
      (h : x.isFinite = false ∨ x.lt (.zero false) = true)
  | width {low high : ℤ} (hlow : p.minWidth = some low) (hhigh : p.maxWidth = some high)
      (h : high < low)
  | height {low high : ℤ} (hlow : p.minHeight = some low) (hhigh : p.maxHeight = some high)
      (h : high < low)
  | ratioRange {low high : Double} (hlow : p.minAspectRatio = some low)
      (hhigh : p.maxAspectRatio = some high) (h : high.lt low = true)

theorem refused_iff {p : FilterParams} : p.Refused ↔ ¬p.Accepted := by
  constructor
  · rintro (⟨horder, hseed, h⟩ | ⟨hx, h⟩ | h | ⟨hx, h⟩ | ⟨hlow, hhigh, h⟩ | ⟨hlow, hhigh, h⟩ |
      ⟨hlow, hhigh, h⟩) hp
    · exact absurd (hp.seed_pos horder _ hseed) (not_lt.2 h)
    · exact absurd (hp.ratio_finite _ hx) (by simp [h])
    · exact absurd hp.paired (not_le.2 h)
    · obtain ⟨hfinite, hneg⟩ := hp.shares _ hx
      rcases h with h | h
      · exact absurd hfinite (by simp [h])
      · exact absurd hneg (by simp [h])
    · exact absurd (hp.width_le _ hlow _ hhigh) (not_le.2 h)
    · exact absurd (hp.height_le _ hlow _ hhigh) (not_le.2 h)
    · exact absurd (hp.ratio_le _ hlow _ hhigh) (by simp [h])
  · intro hp
    by_contra hnot
    refine hp ⟨fun horder s hs => ?_, fun x hx => ?_, ?_, fun x hx => ⟨?_, ?_⟩, fun low hlow high
      hhigh => ?_, fun low hlow high hhigh => ?_, fun low hlow high hhigh => ?_⟩
    · exact not_le.1 fun h => hnot (.seed horder hs h)
    · exact Bool.not_eq_false _ ▸ fun h => hnot (.ratio hx h)
    · exact not_lt.1 fun h => hnot (.spare h)
    · exact Bool.not_eq_false _ ▸ fun h => hnot (.percent hx (.inl h))
    · exact Bool.not_eq_true _ ▸ fun h => hnot (.percent hx (.inr h))
    · exact not_lt.1 fun h => hnot (.width hlow hhigh h)
    · exact not_lt.1 fun h => hnot (.height hlow hhigh h)
    · exact Bool.not_eq_true _ ▸ fun h => hnot (.ratioRange hlow hhigh h)

/-- The share of the color in a place, zero if it is missing. -/
def percentAt (p : FilterParams) (i : ℕ) : Double := p.minColorPercents[i]?.getD (.zero false)

theorem percentAt_isShare {p : FilterParams} (h : p.Accepted) (i : ℕ) :
    (p.percentAt i).IsShare := by
  unfold percentAt
  cases hi : p.minColorPercents[i]? with
  | none => decide
  | some x => exact h.shares x (List.mem_of_getElem? hi)

theorem mem_pairs {p : FilterParams} {pair : String × Double} :
    pair ∈ p.pairs ↔ ∃ i, p.colors[i]? = some pair.1 ∧ pair.2 = p.percentAt i := by
  simp only [pairs, List.mem_iff_getElem?, getElem?_padPercents, Option.map_eq_some_iff, percentAt]
  constructor
  · rintro ⟨i, name, hname, rfl⟩
    exact ⟨i, hname, rfl⟩
  · rintro ⟨i, hname, hpercent⟩
    exact ⟨i, _, hname, Prod.ext rfl hpercent.symm⟩

end FilterParams

/-! ## Kept parameters -/

namespace PostFilter

/-- Whether a filter has what the parameters gave. -/
structure Keeps (f : PostFilter) (p : FilterParams) : Prop where
  limit : ∀ n, f.limit = some n ↔ p.limit = some n ∧ 0 < n
  sort : f.sort = p.order
  cursor : f.cursor = p.cursor
  nsfw : f.nsfw = p.nsfw
  grayscale : f.grayscale = p.grayscale
  sprocket : f.sprocket = p.sprocket
  width : f.width = ⟨p.minWidth, p.maxWidth⟩
  height : f.height = ⟨p.minHeight, p.maxHeight⟩
  aspectRatio : f.aspectRatio = ⟨p.minAspectRatio, p.maxAspectRatio⟩
  ids : Option.Rel (fun kept given => ∀ id, id ∈ kept ↔ id ∈ given) f.ids p.ids
  title : ∀ title,
    f.title = some title ↔ ∃ given ∈ p.title, Text.trim given = title ∧ ¬Text.Blank given
  author : ∀ author, f.author = some author ↔
    ∃ given ∈ p.author, Author.stored (Text.trim given) = author ∧ ¬Text.Blank given
  keywords : ∀ word,
    word ∈ f.keywords ↔ ∃ given ∈ p.keywords, Text.trim given = word ∧ ¬Text.Blank given
  /-- Every predicate is the pair of some place. -/
  colors_given : ∀ c ∈ f.colors, ∃ i name, p.colors[i]? = some name ∧ ¬Text.Blank name ∧
    c.name = Text.trim name ∧ c.minPercent = p.percentAt i
  /-- Every place with a color has its predicate. -/
  colors_kept : ∀ i name, p.colors[i]? = some name → ¬Text.Blank name →
    ∃ c ∈ f.colors, c.name = Text.trim name ∧ c.minPercent.equal (p.percentAt i) = true

variable {p : FilterParams}

theorem colors_given {c : ColorPredicate} (hc : c ∈ colorSet p.pairs) :
    ∃ i name, p.colors[i]? = some name ∧ ¬Text.Blank name ∧ c.name = Text.trim name ∧
      c.minPercent = p.percentAt i := by
  obtain ⟨pair, hpair, hname, hpercent⟩ := mem_namedPairs.1 (mem_namedPairs_of_mem_colorSet hc)
  obtain ⟨i, hi, hshare⟩ := FilterParams.mem_pairs.1 hpair
  obtain ⟨htrim, hblank⟩ := Text.nonBlank?_eq_some_iff.1 hname
  exact ⟨i, pair.1, hi, hblank, htrim.symm, hpercent.symm.trans hshare⟩

theorem colors_kept (hp : p.Accepted) {i : ℕ} {name : String} (hi : p.colors[i]? = some name)
    (hblank : ¬Text.Blank name) : ∃ c ∈ colorSet p.pairs, c.name = Text.trim name ∧
      c.minPercent.equal (p.percentAt i) = true := by
  have hpair : (name, p.percentAt i) ∈ p.pairs := FilterParams.mem_pairs.2 ⟨i, hi, rfl⟩
  have hmem : ⟨Text.trim name, p.percentAt i⟩ ∈ namedPairs p.pairs :=
    mem_namedPairs.2 ⟨_, hpair, Text.nonBlank?_eq_some_iff.2 ⟨rfl, hblank⟩, rfl⟩
  have hself : ColorPredicate.same ⟨Text.trim name, p.percentAt i⟩
      ⟨Text.trim name, p.percentAt i⟩ = true :=
    ColorPredicate.same_iff.2
      ⟨rfl, by rw [Double.equal_self, (FilterParams.percentAt_isShare hp i).isNaN]; rfl⟩
  obtain ⟨c, hc, hsame⟩ := ColorPredicate.likeness.exists_mem_orderedSet hmem hself
  exact ⟨c, hc, ColorPredicate.same_iff.1 hsame⟩

/-- The filter of accepted parameters loses nothing of them. -/
theorem keeps_toFilter (hp : p.Accepted) (seedSource : Unit → ℤ) :
    (p.toFilter seedSource).Keeps p where
  limit _ := by simp [FilterParams.toFilter]
  sort := rfl
  cursor := rfl
  nsfw := rfl
  grayscale := rfl
  sprocket := rfl
  width := rfl
  height := rfl
  aspectRatio := rfl
  ids := by
    rw [FilterParams.toFilter]
    cases p.ids with
    | none => exact .none
    | some ids => exact .some fun _ => mem_idSet
  title _ := by simp [FilterParams.toFilter, Option.bind_eq_some_iff, Text.nonBlank?_eq_some_iff]
  author _ := by
    simp only [FilterParams.toFilter, Option.map_eq_some_iff, Option.bind_eq_some_iff,
      Text.nonBlank?_eq_some_iff, Option.mem_def]
    constructor
    · rintro ⟨name, ⟨given, hgiven, rfl, hblank⟩, rfl⟩
      exact ⟨given, hgiven, rfl, hblank⟩
    · rintro ⟨given, hgiven, rfl, hblank⟩
      exact ⟨_, ⟨given, hgiven, rfl, hblank⟩, rfl⟩
  keywords _ := mem_keywordSet
  colors_given _ := colors_given
  colors_kept _ _ := colors_kept hp

/-! ## Asking for a seed -/

section

variable {m : Type → Type} [Monad m]

/-- The seed of a filter, where asking the source of seeds is a step of the program. -/
def askSeed (ask : m ℤ) (sort : SortMode) (seed : Option ℤ) : ExceptT FilterFault m (Option ℤ) :=
  match sort, seed with
  | .random, some s => if 0 < s then pure (some s) else throw .seedNotPositive
  | .random, none => return some (← ask)
  | _, _ => pure none

/-- The filter of request parameters with a seed that is settled. -/
def finish (p : FilterParams) (seed : Option ℤ) : Except FilterFault PostFilter := do
  if [p.minAspectRatio, p.maxAspectRatio].any fun r => r.any fun x => !x.isFinite then
    throw .ratioNotFinite
  let colors ← colorPredicates p.colors p.minColorPercents
  let width ← Bounds.checked (fun a b => decide (b < a)) .reversedWidth p.minWidth p.maxWidth
  let height ← Bounds.checked (fun a b => decide (b < a)) .reversedHeight p.minHeight p.maxHeight
  let ratio ← Bounds.checked (fun a b => b.lt a) .reversedRatio p.minAspectRatio p.maxAspectRatio
  pure {
    limit := p.limit.filter fun n => decide (0 < n)
    sort := p.order
    cursor := p.cursor
    nsfw := p.nsfw
    grayscale := p.grayscale
    sprocket := p.sprocket
    seed := seed
    ids := p.ids.map idSet
    title := p.title.bind Text.nonBlank?
    author := (p.author.bind Text.nonBlank?).map Author.stored
    colors := colors
    keywords := keywordSet p.keywords
    width := width
    height := height
    aspectRatio := ratio }

/-- The filter of request parameters, where asking the source of seeds is a step of the
program. -/
def buildAsking (ask : m ℤ) (p : FilterParams) : ExceptT FilterFault m PostFilter := do
  let seed ← askSeed ask p.order p.seed
  ExceptT.mk (pure (finish p seed))

theorem build_eq_finish (seedSource : Unit → ℤ) (p : FilterParams) :
    build seedSource p = seedFor seedSource p.order p.seed >>= finish p := rfl

/-- The source is asked for the seed of a random order that has none. -/
theorem run_askSeed [LawfulMonad m] (ask : m ℤ) (seedSource : Unit → ℤ) (sort : SortMode)
    (seed : Option ℤ) :
    (askSeed ask sort seed).run =
      if sort = .random ∧ seed = none then (fun s => seedFor (fun _ => s) sort seed) <$> ask
      else pure (seedFor seedSource sort seed) := by
  cases sort with
  | time => simp [askSeed, seedFor]
  | score => simp [askSeed, seedFor]
  | random =>
    cases seed with
    | none => simp [askSeed, seedFor, Except.map]
    | some s => by_cases hs : 0 < s <;> simp [askSeed, seedFor, hs]

/-- Behind the seed nothing is asked. -/
theorem run_buildAsking_eq [LawfulMonad m] (ask : m ℤ) (p : FilterParams) :
    (buildAsking ask p).run =
      (fun seed => seed >>= finish p) <$> (askSeed ask p.order p.seed).run := by
  rw [buildAsking, ExceptT.run_bind, map_eq_pure_bind]
  refine bind_congr fun seed => ?_
  cases seed with
  | error e => rfl
  | ok seed => rfl

/-- The source is asked once for a random order without a seed and otherwise never. -/
theorem run_buildAsking [LawfulMonad m] (ask : m ℤ) (seedSource : Unit → ℤ) (p : FilterParams) :
    (buildAsking ask p).run =
      if p.order = .random ∧ p.seed = none then (fun s => build (fun _ => s) p) <$> ask
      else pure (build seedSource p) := by
  simp only [run_buildAsking_eq, run_askSeed ask seedSource, build_eq_finish]
  split
  · rw [Functor.map_map]
  · rw [map_pure]

end

/-- Parameters are refused for the listed reasons alone, the filter of all others loses nothing
of them, and a seed is asked for exactly when the order is random and none was given. -/
theorem build_loses_nothing (seedSource : Unit → ℤ) (p : FilterParams) :
    ((∃ e, build seedSource p = .error e) ↔ p.Refused) ∧
      (¬p.Refused → ∃ f, build seedSource p = .ok f ∧ f.Keeps p ∧
        f.seed = if p.order = .random then some (p.seed.getD (seedSource ())) else none) ∧
      (buildAsking (m := Id) (seedSource ()) p).run = build seedSource p ∧
      ∀ (m : Type → Type) [Monad m] [LawfulMonad m] (ask : m ℤ),
        (buildAsking ask p).run =
          if p.order = .random ∧ p.seed = none then (fun s => build (fun _ => s) p) <$> ask
          else pure (build seedSource p) := by
  refine ⟨⟨?_, ?_⟩, ?_, ?_, fun m _ _ ask => run_buildAsking ask seedSource p⟩
  · rintro ⟨e, he⟩
    refine FilterParams.refused_iff.2 fun hp => ?_
    rw [build_eq_ok_iff.2 ⟨hp, rfl⟩] at he
    cases he
  · exact fun h => build_error (FilterParams.refused_iff.1 h) seedSource
  · intro h
    have hp : p.Accepted := not_not.1 fun hnot => h (FilterParams.refused_iff.2 hnot)
    exact ⟨_, build_eq_ok_iff.2 ⟨hp, rfl⟩, keeps_toFilter hp seedSource, rfl⟩
  · rw [run_buildAsking (m := Id) (seedSource ()) seedSource p]
    split <;> rfl

/-- Parameters with a blank color before the last one, whose share is the third. -/
def gappedParams : FilterParams where
  sort := some .random
  ids := some [3, 1, 3]
  colors := ["red ", " ", "blue", "red"]
  minColorPercents := [.zero true, .zero false, .ofRatio false 1 4]
  keywords := [" night", "", "night"]

theorem gappedParams_accepted : gappedParams.Accepted where
  seed_pos := by decide
  ratio_finite := by
    rintro x (hx | hx) <;> cases hx
  paired := by decide
  shares := by decide +kernel
  width_le := by decide
  height_le := by decide
  ratio_le := by decide

/-- A source of seeds that counts how often it is asked. -/
def countedSeed : StateM ℕ ℤ := do
  modify (· + 1)
  return 29

theorem blank_color_moves_no_share :
    ¬gappedParams.Refused ∧
      (∃ f, build (fun _ => 29) gappedParams = .ok f ∧ f.Keeps gappedParams ∧ f.seed = some 29 ∧
        ∃ c ∈ f.colors, c.name = "blue" ∧ c.minPercent.equal (.ofRatio false 1 4) = true) ∧
      ((buildAsking countedSeed gappedParams).run.run 0).2 = 1 ∧
      ((buildAsking countedSeed { gappedParams with seed := some 5 }).run.run 0).2 = 0 := by
  have hrefused : ¬gappedParams.Refused := fun h =>
    FilterParams.refused_iff.1 h gappedParams_accepted
  obtain ⟨-, hkept, -, hasked⟩ := build_loses_nothing (fun _ => 29) gappedParams
  obtain ⟨-, -, -, hnotAsked⟩ :=
    build_loses_nothing (fun _ => 29) { gappedParams with seed := some 5 }
  obtain ⟨f, hbuild, hkeeps, hseed⟩ := hkept hrefused
  refine ⟨hrefused, ⟨f, hbuild, hkeeps, hseed, ?_⟩, ?_, ?_⟩
  · have hword : ¬Text.Blank "blue" := by
      rw [← Text.trim_eq_empty_iff]
      decide
    have hshare : gappedParams.percentAt 2 = .ofRatio false 1 4 := rfl
    obtain ⟨c, hc, hname, hpercent⟩ := hkeeps.colors_kept 2 "blue" rfl hword
    rw [hshare] at hpercent
    exact ⟨c, hc, hname.trans (by decide), hpercent⟩
  · rw [hasked (StateM ℕ) countedSeed]
    rfl
  · rw [hnotAsked (StateM ℕ) countedSeed]
    rfl

end PostFilter
end FilmCatalog
