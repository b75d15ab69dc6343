import FilmCatalog.Error
import FilmCatalog.Filter.Basic
import FilmCatalog.Post.Author

/-!
# Building filters

Request parameters become a filter in one normal form: ids, keywords and
color predicates are sorted and free of repetitions, texts are trimmed and
left out if blank, the author gets its stored form, a limit is kept only if
it is positive, and a seed is kept for the random order alone, where a missing
one is drawn from `seedSource`.

Parameters are checked in a fixed order (seed, aspect ratio, colors, width,
height, aspect ratio range) and the first fault is reported.

Key definitions: `FilterParams`, `FilterFault`, `PostFilter.build`, `PostFilter.byIds`,
`SortMode.ofText`.
Key theorems: `Bounds.isUnbounded_of_checked`.
-/

namespace FilmCatalog

/-- Why request parameters are refused. -/
inductive FilterFault where
  | unknownSort (name : String)
  | seedNotPositive
  | ratioNotFinite
  | spareColorPercents (percents colors : Nat)
  | badColorPercent
  | reversedWidth
  | reversedHeight
  | reversedRatio
  deriving DecidableEq, Repr

namespace FilterFault

/-- The field that a fault is about. -/
def field : FilterFault → String
  | .unknownSort _ => "sort"
  | .seedNotPositive => "seed"
  | .ratioNotFinite => "aspect_ratio"
  | .spareColorPercents _ _ => "min_color_percents"
  | .badColorPercent => "min_color_percents"
  | .reversedWidth => "width"
  | .reversedHeight => "height"
  | .reversedRatio => "aspect_ratio"

/-- What is wrong with the field. -/
def reason : FilterFault → String
  | .unknownSort name => "unknown sort `" ++ name ++ "`, expected latest, top or random"
  | .seedNotPositive => "must be positive"
  | .ratioNotFinite => "must be a finite number"
  | .spareColorPercents percents colors =>
    toString percents ++ " percents supplied for " ++ toString colors ++ " colors"
  | .badColorPercent => "percents must be finite and non-negative"
  | .reversedWidth => "minimum exceeds maximum"
  | .reversedHeight => "minimum exceeds maximum"
  | .reversedRatio => "minimum exceeds maximum"

/-- A fault as an error of the domain. -/
def toError (f : FilterFault) : DomainError := .invalidFilter f.field f.reason

end FilterFault

/-- The order of a name, without regard to case and surrounding blanks. -/
def SortMode.ofText (s : String) : Except FilterFault SortMode :=
  match Text.lower (Text.trim s) with
  | "latest" => .ok .time
  | "time" => .ok .time
  | "top" => .ok .score
  | "score" => .ok .score
  | "random" => .ok .random
  | other => .error (.unknownSort other)

/-- The seeds from which one is drawn if a random order comes without. -/
def randomSeeds : List Int :=
  [11, 13, 17, 19, 23, 29, 31, 37, 41, 43, 47, 53, 59, 61, 67, 71, 73, 79, 83, 89, 97, 101, 107,
    113, 131, 137, 149, 167, 173, 179, 191, 197, 227, 233, 239, 251, 257, 263]

/-- The first of the seeds. -/
def firstSeed : Int := 11

/-- The parameters of a listing request; percents belong to colors by position. -/
structure FilterParams where
  limit : Option Int := none
  sort : Option SortMode := none
  cursor : Option Int := none
  nsfw : Option Bool := none
  grayscale : Option Bool := none
  sprocket : Option Bool := none
  seed : Option Int := none
  ids : Option (List Int) := none
  title : Option String := none
  author : Option String := none
  colors : List String := []
  minColorPercents : List Double := []
  keywords : List String := []
  minWidth : Option Int := none
  maxWidth : Option Int := none
  minHeight : Option Int := none
  maxHeight : Option Int := none
  minAspectRatio : Option Double := none
  maxAspectRatio : Option Double := none
  deriving DecidableEq, Repr

/-- The parameters with the order that a text names, if there is one. -/
def FilterParams.withSort (p : FilterParams) (sort : Option String) :
    Except FilterFault FilterParams :=
  match sort with
  | some s => (SortMode.ofText s).map fun mode => { p with sort := some mode }
  | none => .ok p

/-- Drops every element that the one before it is the same as. -/
def dropRepeats {α : Type} (same : α → α → Bool) : List α → List α
  | [] => []
  | a :: rest => a :: go a rest
where
  go (last : α) : List α → List α
    | [] => []
    | b :: rest => if same last b then go last rest else b :: go b rest

/-- The ids in ascending order, each once. -/
def idSet (ids : List Int) : List Int :=
  dropRepeats (· == ·) (ids.mergeSort fun a b => decide (a ≤ b))

/-- The words that are not blank, trimmed, in ascending order, each once. -/
def keywordSet (words : List String) : List String :=
  dropRepeats (· == ·) ((words.filterMap Text.nonBlank?).mergeSort fun a b => decide (a ≤ b))

/-- Shares for colors: those given, then zeros. -/
def padPercents : List String → List Double → List (String × Double)
  | [], _ => []
  | name :: names, [] => (name, Double.zero false) :: padPercents names []
  | name :: names, p :: ps => (name, p) :: padPercents names ps

/-- The predicates of the colors that are not blank, sorted, each once. -/
def colorSet (pairs : List (String × Double)) : List ColorPredicate :=
  dropRepeats ColorPredicate.same
    ((pairs.filterMap fun (name, percent) =>
      (Text.nonBlank? name).map (⟨·, percent⟩)).mergeSort ColorPredicate.le)

/-- The color predicates of names and shares. -/
def colorPredicates (names : List String) (percents : List Double) :
    Except FilterFault (List ColorPredicate) := do
  if names.length < percents.length then
    throw (.spareColorPercents percents.length names.length)
  if percents.any fun p => !p.isFinite || p.lt (Double.zero false) then
    throw .badColorPercent
  pure (colorSet (padPercents names percents))

/-- The range of two ends, unless the lower one is the greater. -/
def Bounds.checked {α : Type} (greater : α → α → Bool) (fault : FilterFault)
    (min max : Option α) : Except FilterFault (Bounds α) :=
  match min, max with
  | some low, some high => if greater low high then .error fault else .ok ⟨min, max⟩
  | _, _ => .ok ⟨min, max⟩

/-- A range that is accepted is open at both ends exactly if no end was given. -/
theorem Bounds.isUnbounded_of_checked {α : Type} {greater : α → α → Bool} {fault : FilterFault}
    {min max : Option α} {b : Bounds α} (h : Bounds.checked greater fault min max = .ok b) :
    b.isUnbounded = true ↔ min = none ∧ max = none := by
  have hb : b = ⟨min, max⟩ := by
    unfold Bounds.checked at h
    split at h
    · split at h
      · cases h
      · exact (Except.ok.inj h).symm
    · exact (Except.ok.inj h).symm
  rw [hb, Bounds.isUnbounded, Bool.and_eq_true, Option.isNone_iff_eq_none,
    Option.isNone_iff_eq_none]

/-- The seed of a filter: for the random order the one given, which must be
positive, or one drawn. -/
def seedFor (seedSource : Unit → Int) (sort : SortMode) (seed : Option Int) :
    Except FilterFault (Option Int) :=
  match sort, seed with
  | .random, some s => if 0 < s then .ok (some s) else .error .seedNotPositive
  | .random, none => .ok (some (seedSource ()))
  | _, _ => .ok none

namespace PostFilter

/-- The filter of request parameters. -/
def build (seedSource : Unit → Int) (p : FilterParams) : Except FilterFault PostFilter := do
  let sort := p.sort.getD .time
  let seed ← seedFor seedSource sort p.seed
  if [p.minAspectRatio, p.maxAspectRatio].any fun r => r.any fun x => !x.isFinite then
    throw .ratioNotFinite
  let colors ← colorPredicates p.colors p.minColorPercents
  let width ← Bounds.checked (fun a b => decide (b < a)) .reversedWidth p.minWidth p.maxWidth
  let height ← Bounds.checked (fun a b => decide (b < a)) .reversedHeight p.minHeight p.maxHeight
  let ratio ← Bounds.checked (fun a b => b.lt a) .reversedRatio p.minAspectRatio p.maxAspectRatio
  pure {
    limit := p.limit.filter fun n => decide (0 < n)
    sort := sort
    cursor := p.cursor
    nsfw := p.nsfw
    grayscale := p.grayscale
    sprocket := p.sprocket
    seed := seed
    ids := p.ids.map idSet
    title := p.title.bind Text.nonBlank?
    author := (p.author.bind Text.nonBlank?).map Author.stored
    colors := colors
    keywords := keywordSet p.keywords
    width := width
    height := height
    aspectRatio := ratio }

/-- The filter that selects the given ids and nothing else. -/
def byIds (ids : List Int) : PostFilter := { everything with ids := some (idSet ids) }

end PostFilter
end FilmCatalog
