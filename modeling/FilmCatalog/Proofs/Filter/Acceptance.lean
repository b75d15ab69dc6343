import FilmCatalog.Filter.Build
import FilmCatalog.Proofs.Result

/-!
# Accepted requests

Checking the parameters of a request and making a filter of them are two things:
which parameters are accepted is said without the filter, and the filter of
accepted parameters without the checks. So a fact about built filters is one
about what accepted parameters are turned into.

Key definitions: `Double.IsShare`, `FilterParams.Accepted`, `FilterParams.toFilter`.
Key theorems: `PostFilter.build_eq_ok_iff`.
-/

namespace FilmCatalog

/-- Whether a number may be the share of a color. -/
def Double.IsShare (x : Double) : Prop := x.isFinite = true ∧ x.lt (.zero false) = false

instance (x : Double) : Decidable x.IsShare := inferInstanceAs (Decidable (_ ∧ _))

theorem Double.isNaN_of_isFinite {x : Double} (h : x.isFinite = true) : x.isNaN = false := by
  rw [isFinite, decide_eq_true_eq] at h
  exact decide_eq_false (by omega)

theorem Double.IsShare.isNaN {x : Double} (h : x.IsShare) : x.isNaN = false :=
  isNaN_of_isFinite h.1

namespace FilterParams

/-- The order that the parameters ask for. -/
def order (p : FilterParams) : SortMode := p.sort.getD .time

/-- The colors with their shares, those that are missing being zero. -/
def pairs (p : FilterParams) : List (String × Double) := padPercents p.colors p.minColorPercents

/-- Whether parameters are accepted. -/
structure Accepted (p : FilterParams) : Prop where
  seed_pos : p.order = .random → ∀ s ∈ p.seed, 0 < s
  ratio_finite : ∀ x, x ∈ p.minAspectRatio ∨ x ∈ p.maxAspectRatio → x.isFinite = true
  paired : p.minColorPercents.length ≤ p.colors.length
  shares : ∀ x ∈ p.minColorPercents, x.IsShare
  width_le : ∀ low ∈ p.minWidth, ∀ high ∈ p.maxWidth, low ≤ high
  height_le : ∀ low ∈ p.minHeight, ∀ high ∈ p.maxHeight, low ≤ high
  ratio_le : ∀ low ∈ p.minAspectRatio, ∀ high ∈ p.maxAspectRatio, high.lt low = false

/-- What parameters are turned into if they are accepted. -/
def toFilter (seedSource : Unit → Int) (p : FilterParams) : PostFilter where
  limit := p.limit.filter fun n => decide (0 < n)
  sort := p.order
  cursor := p.cursor
  nsfw := p.nsfw
  grayscale := p.grayscale
  sprocket := p.sprocket
  seed := if p.order = .random then some (p.seed.getD (seedSource ())) else none
  ids := p.ids.map idSet
  title := p.title.bind Text.nonBlank?
  author := (p.author.bind Text.nonBlank?).map Author.stored
  colors := colorSet p.pairs
  keywords := keywordSet p.keywords
  width := ⟨p.minWidth, p.maxWidth⟩
  height := ⟨p.minHeight, p.maxHeight⟩
  aspectRatio := ⟨p.minAspectRatio, p.maxAspectRatio⟩

end FilterParams

/-! ## Checks -/

/-- A check and what comes behind it give a value if nothing is refused. -/
theorem check_eq_ok_iff {ε α : Type} {c : Prop} [Decidable c] {e : ε} {f : PUnit → Except ε α}
    {a : α} : (if c then throw e >>= f else f ⟨⟩) = .ok a ↔ ¬c ∧ f ⟨⟩ = .ok a := by
  by_cases hc : c
  · rw [if_pos hc]
    simp [hc, bind, Except.bind, throw, throwThe, MonadExceptOf.throw]
  · rw [if_neg hc]
    simp [hc]

theorem seedFor_eq_ok_iff {seedSource : Unit → Int} {sort : SortMode} {seed drawn : Option Int} :
    seedFor seedSource sort seed = .ok drawn ↔
      (sort = .random → ∀ s ∈ seed, 0 < s) ∧
        drawn = if sort = .random then some (seed.getD (seedSource ())) else none := by
  cases sort with
  | time => simp [seedFor, eq_comm]
  | score => simp [seedFor, eq_comm]
  | random =>
    cases seed with
    | none => simp [seedFor, eq_comm]
    | some s => by_cases hs : 0 < s <;> simp [seedFor, hs, eq_comm]

theorem admitted_iff {percents : List Double} :
    (percents.any fun p => !p.isFinite || p.lt (.zero false)) = true ↔
      ¬∀ x ∈ percents, x.IsShare := by
  simp only [List.any_eq_true, Bool.or_eq_true, Bool.not_eq_true', Double.IsShare, not_forall,
    not_and_or, Bool.not_eq_true, Bool.not_eq_false, exists_prop]

theorem colorPredicates_eq_ok_iff {names : List String} {percents : List Double}
    {colors : List ColorPredicate} :
    colorPredicates names percents = .ok colors ↔
      percents.length ≤ names.length ∧ (∀ x ∈ percents, x.IsShare) ∧
        colors = colorSet (padPercents names percents) := by
  rw [colorPredicates, check_eq_ok_iff, check_eq_ok_iff, admitted_iff, not_lt, not_not,
    pure_eq_ok, Except.ok.injEq, eq_comm (a := colors)]

theorem Bounds.checked_eq_ok_iff {α : Type} {greater : α → α → Bool} {fault : FilterFault}
    {min max : Option α} {b : Bounds α} :
    Bounds.checked greater fault min max = .ok b ↔
      (∀ low ∈ min, ∀ high ∈ max, greater low high = false) ∧ b = ⟨min, max⟩ := by
  unfold Bounds.checked
  cases min with
  | none => simp [eq_comm (a := b)]
  | some low =>
    cases max with
    | none => simp [eq_comm (a := b)]
    | some high => by_cases h : greater low high = true <;> simp [h, eq_comm (a := b)]

namespace PostFilter

/-- A filter is built exactly of accepted parameters, and then it is theirs. -/
theorem build_eq_ok_iff {seedSource : Unit → Int} {p : FilterParams} {f : PostFilter} :
    build seedSource p = .ok f ↔ p.Accepted ∧ p.toFilter seedSource = f := by
  have hratios : ([p.minAspectRatio, p.maxAspectRatio].any fun r => r.any fun x => !x.isFinite) =
      true ↔ ¬∀ x, x ∈ p.minAspectRatio ∨ x ∈ p.maxAspectRatio → x.isFinite = true := by
    cases p.minAspectRatio <;> cases p.maxAspectRatio <;> simp
  unfold build
  simp only [bind_eq_ok_iff, check_eq_ok_iff, hratios, seedFor_eq_ok_iff,
    colorPredicates_eq_ok_iff, Bounds.checked_eq_ok_iff, not_not, pure_eq_ok, Except.ok.injEq,
    decide_eq_false_iff_not, not_lt]
  constructor
  · rintro ⟨seed, ⟨hseed, rfl⟩, hfinite, colors, ⟨hpaired, hshares, rfl⟩, width, ⟨hwidth, rfl⟩,
      height, ⟨hheight, rfl⟩, ratio, ⟨hratio, rfl⟩, rfl⟩
    exact ⟨⟨hseed, hfinite, hpaired, hshares, hwidth, hheight, hratio⟩, rfl⟩
  · rintro ⟨⟨hseed, hfinite, hpaired, hshares, hwidth, hheight, hratio⟩, rfl⟩
    exact ⟨_, ⟨hseed, rfl⟩, hfinite, _, ⟨hpaired, hshares, rfl⟩, _, ⟨hwidth, rfl⟩, _,
      ⟨hheight, rfl⟩, _, ⟨hratio, rfl⟩, rfl⟩

/-- Parameters that are not accepted are refused. -/
theorem build_error {p : FilterParams} (h : ¬p.Accepted) (seedSource : Unit → Int) :
    ∃ e, build seedSource p = .error e := by
  cases hbuild : build seedSource p with
  | error e => exact ⟨e, rfl⟩
  | ok f => exact absurd (build_eq_ok_iff.1 hbuild).1 h

end PostFilter
end FilmCatalog
