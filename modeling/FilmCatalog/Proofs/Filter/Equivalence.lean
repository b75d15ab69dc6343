import FilmCatalog.Proofs.Filter.Acceptance
import FilmCatalog.Proofs.Filter.Sets
import FilmCatalog.Proofs.Text.Trim

/-!
# Requests that mean the same

Parameters that differ only in how sets are listed, in blanks around texts, in
the mark of the author, in how defaults are spelled and in a seed that is not
used are alike. Alike parameters are turned into the same filter. They are also
accepted together, with one exception: every percent is checked, also that of a
blank name, which is dropped only later.

Key definitions: `FilterParams.Alike`, `FilterParams.BlankRefused`.
Key theorems: `FilterParams.Alike.toFilter_eq`, `FilterParams.Alike.accepted_iff`,
`alike_requests`.
-/

namespace FilmCatalog

/-! ## Texts -/

/-- Whether two names of an author differ in blanks around them and in the mark. -/
inductive Author.Alike (a b : String) : Prop where
  | trimmed (h : Text.trim a = Text.trim b)
  | marked (hblank : ¬Text.Blank a) (hmark : ¬Author.Marked (Text.trim a))
      (h : Text.trim b = Author.mark ++ Text.trim a)
  | unmarked (hblank : ¬Text.Blank b) (hmark : ¬Author.Marked (Text.trim b))
      (h : Text.trim a = Author.mark ++ Text.trim b)

theorem Author.Alike.symm {a b : String} (h : Author.Alike a b) : Author.Alike b a := by
  cases h with
  | trimmed h => exact .trimmed h.symm
  | marked hblank hmark h => exact .unmarked hblank hmark h
  | unmarked hblank hmark h => exact .marked hblank hmark h

theorem Text.nonBlank?_congr {a b : String} (h : trim a = trim b) : nonBlank? a = nonBlank? b := by
  rw [nonBlank?, nonBlank?, h]

/-- The stored form of a name that was marked by hand is the name as it was given. -/
theorem Author.stored_of_marked {a b : String} (hblank : ¬Text.Blank a)
    (hmark : ¬Marked (Text.trim a)) (h : Text.trim b = mark ++ Text.trim a) :
    (Text.nonBlank? a).map stored = (Text.nonBlank? b).map stored := by
  have hb : ¬Text.Blank b := by
    rw [← Text.trim_eq_empty_iff, h]
    exact fun hempty => hblank (Text.trim_eq_empty_iff.1 (String.append_eq_empty_iff.1 hempty).2)
  have hmarked : Marked (mark ++ Text.trim a) := by
    rw [Marked, String.toList_append]
    exact List.prefix_append _ _
  rw [Text.nonBlank?_eq_some_iff.2 ⟨rfl, hblank⟩, Text.nonBlank?_eq_some_iff.2 ⟨rfl, hb⟩,
    Option.map_some, Option.map_some, stored_eq, stored_eq, Text.trim_trim, Text.trim_trim,
    if_neg hmark, h, if_pos hmarked]

theorem Author.Alike.stored_eq {a b : String} (h : Author.Alike a b) :
    (Text.nonBlank? a).map stored = (Text.nonBlank? b).map stored := by
  cases h with
  | trimmed h => rw [Text.nonBlank?_congr h]
  | marked hblank hmark h => exact stored_of_marked hblank hmark h
  | unmarked hblank hmark h => exact (stored_of_marked hblank hmark h).symm

/-! ## Parameters -/

section

variable {α β : Type} {r : α → α → Prop} {a b : Option α}

theorem rel_symm (hr : ∀ {x y}, r x y → r y x) (h : Option.Rel r a b) : Option.Rel r b a := by
  cases h with
  | none => exact .none
  | some hxy => exact .some (hr hxy)

theorem bind_eq_of_rel {f : α → Option β} (hf : ∀ {x y}, r x y → f x = f y)
    (h : Option.Rel r a b) : a.bind f = b.bind f := by
  cases h with
  | none => rfl
  | some hxy => exact hf hxy

end

namespace FilterParams

/-- Whether parameters ask for the same, apart from percents of blank names. -/
structure Alike (p q : FilterParams) : Prop where
  limit : p.limit = q.limit ∨ (∀ n ∈ p.limit, n ≤ 0) ∧ ∀ n ∈ q.limit, n ≤ 0
  order : p.order = q.order
  cursor : p.cursor = q.cursor
  nsfw : p.nsfw = q.nsfw
  grayscale : p.grayscale = q.grayscale
  sprocket : p.sprocket = q.sprocket
  seed : p.order = .random → p.seed = q.seed
  ids : Option.Rel (fun a b => ∀ i, i ∈ a ↔ i ∈ b) p.ids q.ids
  title : Option.Rel (fun a b => Text.trim a = Text.trim b) p.title q.title
  author : Option.Rel Author.Alike p.author q.author
  /-- The pairs with a name that is not blank. -/
  colors : ∀ c, c ∈ namedPairs p.pairs ↔ c ∈ namedPairs q.pairs
  /-- Percents that belong to no color. -/
  spare : p.minColorPercents.drop p.colors.length = q.minColorPercents.drop q.colors.length
  keywords : ∀ word, (∃ w ∈ p.keywords, Text.nonBlank? w = some word) ↔
    ∃ w ∈ q.keywords, Text.nonBlank? w = some word
  minWidth : p.minWidth = q.minWidth
  maxWidth : p.maxWidth = q.maxWidth
  minHeight : p.minHeight = q.minHeight
  maxHeight : p.maxHeight = q.maxHeight
  minAspectRatio : p.minAspectRatio = q.minAspectRatio
  maxAspectRatio : p.maxAspectRatio = q.maxAspectRatio

/-- Whether a blank name comes with a percent that is no share. -/
def BlankRefused (p : FilterParams) : Prop :=
  ∃ pair ∈ p.pairs, Text.Blank pair.1 ∧ ¬pair.2.IsShare

/-! ## Acceptance -/

theorem shares_iff {names : List String} {percents : List Double}
    (h : percents.length ≤ names.length) :
    (∀ x ∈ percents, x.IsShare) ↔ ∀ pair ∈ padPercents names percents, pair.2.IsShare := by
  induction names generalizing percents with
  | nil =>
    rw [List.length_nil, Nat.le_zero_eq, List.length_eq_zero_iff] at h
    subst h
    simp [padPercents]
  | cons name names ih =>
    cases percents with
    | nil =>
      have hzero : (Double.zero false).IsShare := by decide
      rw [padPercents, List.forall_mem_cons, ← ih (Nat.zero_le _)]
      simp [hzero]
    | cons percent percents =>
      rw [padPercents, List.forall_mem_cons, List.forall_mem_cons,
        ih (Nat.le_of_succ_le_succ h)]

/-- All percents are shares if those of the named pairs are and none of a blank name is refused. -/
theorem shares_iff_named {p : FilterParams} (h : p.minColorPercents.length ≤ p.colors.length) :
    (∀ x ∈ p.minColorPercents, x.IsShare) ↔
      (∀ c ∈ namedPairs p.pairs, c.minPercent.IsShare) ∧ ¬p.BlankRefused := by
  rw [shares_iff h]
  constructor
  · intro hall
    constructor
    · intro c hc
      obtain ⟨pair, hpair, -, hpercent⟩ := mem_namedPairs.1 hc
      exact hpercent ▸ hall pair hpair
    · rintro ⟨pair, hpair, -, hrefused⟩
      exact hrefused (hall pair hpair)
  · rintro ⟨hnamed, hblank⟩ pair hpair
    by_cases hname : Text.Blank pair.1
    · by_contra hrefused
      exact hblank ⟨pair, hpair, hname, hrefused⟩
    · have hword := Text.nonBlank?_eq_some_iff.2 ⟨rfl, hname⟩
      exact hnamed ⟨Text.trim pair.1, pair.2⟩ (mem_namedPairs.2 ⟨pair, hpair, hword, rfl⟩)

theorem paired_iff {p : FilterParams} :
    p.minColorPercents.length ≤ p.colors.length ↔
      p.minColorPercents.drop p.colors.length = [] :=
  List.drop_eq_nil_iff.symm

namespace Alike

variable {p q : FilterParams} (h : p.Alike q)

include h

theorem symm : q.Alike p where
  limit := h.limit.imp Eq.symm And.symm
  order := h.order.symm
  cursor := h.cursor.symm
  nsfw := h.nsfw.symm
  grayscale := h.grayscale.symm
  sprocket := h.sprocket.symm
  seed hrandom := (h.seed (h.order.trans hrandom)).symm
  ids := rel_symm (fun hab i => (hab i).symm) h.ids
  title := rel_symm Eq.symm h.title
  author := rel_symm Author.Alike.symm h.author
  colors c := (h.colors c).symm
  spare := h.spare.symm
  keywords word := (h.keywords word).symm
  minWidth := h.minWidth.symm
  maxWidth := h.maxWidth.symm
  minHeight := h.minHeight.symm
  maxHeight := h.maxHeight.symm
  minAspectRatio := h.minAspectRatio.symm
  maxAspectRatio := h.maxAspectRatio.symm

/-- Alike parameters are accepted together if they agree on percents of blank names. -/
theorem accepted (hblank : q.BlankRefused → p.BlankRefused) (hp : p.Accepted) : q.Accepted where
  seed_pos hrandom := h.seed (h.order.trans hrandom) ▸ hp.seed_pos (h.order.trans hrandom)
  ratio_finite := h.minAspectRatio ▸ h.maxAspectRatio ▸ hp.ratio_finite
  paired := paired_iff.2 (h.spare ▸ paired_iff.1 hp.paired)
  shares := by
    obtain ⟨hnamed, hnot⟩ := (shares_iff_named hp.paired).1 hp.shares
    refine (shares_iff_named (paired_iff.2 (h.spare ▸ paired_iff.1 hp.paired))).2 ⟨?_, ?_⟩
    · exact fun c hc => hnamed c ((h.colors c).2 hc)
    · exact fun hq => hnot (hblank hq)
  width_le := h.minWidth ▸ h.maxWidth ▸ hp.width_le
  height_le := h.minHeight ▸ h.maxHeight ▸ hp.height_le
  ratio_le := h.minAspectRatio ▸ h.maxAspectRatio ▸ hp.ratio_le

theorem accepted_iff (hblank : p.BlankRefused ↔ q.BlankRefused) : p.Accepted ↔ q.Accepted :=
  ⟨h.accepted hblank.2, h.symm.accepted hblank.1⟩

/-! ## Filters -/

theorem limit_eq :
    p.limit.filter (fun n => decide (0 < n)) = q.limit.filter fun n => decide (0 < n) := by
  have hnone : ∀ limit : Option Int, (∀ n ∈ limit, n ≤ 0) →
      limit.filter (fun n => decide (0 < n)) = none := by
    intro limit hlimit
    rw [Option.filter_eq_none_iff]
    simpa using hlimit
  rcases h.limit with hlimit | ⟨hp, hq⟩
  · rw [hlimit]
  · rw [hnone _ hp, hnone _ hq]

theorem seed_eq (seedSource : Unit → Int) :
    (p.toFilter seedSource).seed = (q.toFilter seedSource).seed := by
  rw [toFilter, toFilter, ← h.order]
  by_cases hrandom : p.order = .random
  · rw [if_pos hrandom, if_pos hrandom, h.seed hrandom]
  · rw [if_neg hrandom, if_neg hrandom]

theorem ids_eq : p.ids.map idSet = q.ids.map idSet := by
  rw [Option.map_eq_bind, Option.map_eq_bind]
  refine bind_eq_of_rel (fun hab => congrArg some ?_) h.ids
  rw [idSet_eq, idSet_eq]
  exact orderedSet_eq_of_mem (fun _ _ => decide_eq_true_iff) hab

theorem title_eq : p.title.bind Text.nonBlank? = q.title.bind Text.nonBlank? :=
  bind_eq_of_rel Text.nonBlank?_congr h.title

theorem author_eq :
    (p.author.bind Text.nonBlank?).map Author.stored =
      (q.author.bind Text.nonBlank?).map Author.stored := by
  rw [Option.map_bind, Option.map_bind]
  exact bind_eq_of_rel Author.Alike.stored_eq h.author

theorem keywords_eq : keywordSet p.keywords = keywordSet q.keywords := by
  rw [keywordSet_eq, keywordSet_eq]
  refine orderedSet_eq_of_mem (fun _ _ => decide_eq_true_iff) fun word => ?_
  rw [List.mem_filterMap, List.mem_filterMap]
  exact h.keywords word

/-- The zeros of both signs are one share, but which of them a set keeps depends
only on its members. -/
theorem colors_eq (hp : p.Accepted) : colorSet p.pairs = colorSet q.pairs := by
  obtain ⟨hnamed, -⟩ := (shares_iff_named hp.paired).1 hp.shares
  rw [colorSet_eq, colorSet_eq]
  refine orderedSet_congr ColorPredicate.likeness (fun c hc => ?_) h.colors
  have hself := Double.equal_self c.minPercent
  rw [(hnamed c hc).isNaN] at hself
  exact ColorPredicate.same_iff.2 ⟨rfl, hself⟩

/-- Alike parameters that are accepted are turned into the same filter. -/
theorem toFilter_eq (hp : p.Accepted) (seedSource : Unit → Int) :
    p.toFilter seedSource = q.toFilter seedSource := by
  have hseed := h.seed_eq seedSource
  rw [toFilter, toFilter] at hseed ⊢
  rw [h.limit_eq, h.order, h.cursor, h.nsfw, h.grayscale, h.sprocket, h.ids_eq, h.title_eq,
    h.author_eq, h.colors_eq hp, h.keywords_eq, h.minWidth, h.maxWidth, h.minHeight, h.maxHeight,
    h.minAspectRatio, h.maxAspectRatio]
  simp only [h.order] at hseed
  rw [hseed]

end Alike
end FilterParams

/-- Alike parameters that agree on refused percents of blank names are both refused or
built into one filter. -/
theorem alike_requests {p q : FilterParams} (h : p.Alike q)
    (hblank : p.BlankRefused ↔ q.BlankRefused) (seedSource : Unit → Int) :
    (∃ e e', PostFilter.build seedSource p = .error e ∧ PostFilter.build seedSource q = .error e') ∨
      ∃ f, PostFilter.build seedSource p = .ok f ∧ PostFilter.build seedSource q = .ok f := by
  by_cases hp : p.Accepted
  · have hq := (h.accepted_iff hblank).1 hp
    exact .inr ⟨_, PostFilter.build_eq_ok_iff.2 ⟨hp, rfl⟩,
      PostFilter.build_eq_ok_iff.2 ⟨hq, (h.toFilter_eq hp seedSource).symm⟩⟩
  · have hq : ¬q.Accepted := fun hq => hp ((h.accepted_iff hblank).2 hq)
    obtain ⟨e, he⟩ := PostFilter.build_error hp seedSource
    obtain ⟨e', he'⟩ := PostFilter.build_error hq seedSource
    exact .inl ⟨e, e', he, he'⟩

/-- A request with repetitions, blanks and defaults that are spelled out. -/
def wordyParams : FilterParams where
  limit := some (-1)
  sort := some .time
  seed := some 29
  ids := some [3, 1, 3]
  title := some " dusk "
  author := some "u/ada "
  colors := ["red", " ", "blue", "red"]
  minColorPercents := [.zero false, .zero true]
  keywords := ["night ", "", "fog"]

/-- The same request in few words. -/
def briefParams : FilterParams where
  ids := some [1, 3]
  title := some "dusk"
  author := some "ada"
  colors := ["blue", "red"]
  keywords := ["fog", "night"]

theorem wordyParams_alike : wordyParams.Alike briefParams where
  limit := .inr (by decide)
  order := rfl
  cursor := rfl
  nsfw := rfl
  grayscale := rfl
  sprocket := rfl
  seed := by decide
  ids := .some (by simp)
  title := .some (by decide)
  author := .some (.unmarked (by rw [← Text.trim_eq_empty_iff]; decide) (by decide) (by decide))
  colors c := by
    have hwordy : namedPairs wordyParams.pairs =
        [⟨"red", .zero false⟩, ⟨"blue", .zero false⟩, ⟨"red", .zero false⟩] := by decide
    have hbrief : namedPairs briefParams.pairs =
        [⟨"blue", .zero false⟩, ⟨"red", .zero false⟩] := by decide
    rw [hwordy, hbrief]
    simp
    grind
  spare := rfl
  keywords word := by
    rw [← List.mem_filterMap, ← List.mem_filterMap]
    have hwordy : wordyParams.keywords.filterMap Text.nonBlank? = ["night", "fog"] := by decide
    have hbrief : briefParams.keywords.filterMap Text.nonBlank? = ["fog", "night"] := by decide
    rw [hwordy, hbrief]
    simp
    grind
  minWidth := rfl
  maxWidth := rfl
  minHeight := rfl
  maxHeight := rfl
  minAspectRatio := rfl
  maxAspectRatio := rfl

theorem wordyParams_accepted : wordyParams.Accepted where
  seed_pos := by decide
  ratio_finite := by simp [wordyParams]
  paired := by decide
  shares := by decide
  width_le := by simp [wordyParams]
  height_le := by simp [wordyParams]
  ratio_le := by simp [wordyParams]

theorem wordy_request_is_brief :
    wordyParams.Alike briefParams ∧ (wordyParams.BlankRefused ↔ briefParams.BlankRefused) ∧
      ∃ f, PostFilter.build (fun _ => 11) wordyParams = .ok f ∧
        PostFilter.build (fun _ => 11) briefParams = .ok f := by
  have hwordy : ¬wordyParams.BlankRefused :=
    ((FilterParams.shares_iff_named wordyParams_accepted.paired).1 wordyParams_accepted.shares).2
  have hbrief : ¬briefParams.BlankRefused :=
    ((FilterParams.shares_iff_named (by decide)).1 (by decide)).2
  have hblank : wordyParams.BlankRefused ↔ briefParams.BlankRefused := iff_of_false hwordy hbrief
  refine ⟨wordyParams_alike, hblank, ?_⟩
  rcases alike_requests wordyParams_alike hblank fun _ => 11 with ⟨e, -, he, -⟩ | hf
  · rw [PostFilter.build_eq_ok_iff.2 ⟨wordyParams_accepted, rfl⟩] at he
    cases he
  · exact hf

/-- A blank color with a percent that is no share. -/
def blankColorParams : FilterParams where
  colors := [" "]
  minColorPercents := [.ofInt (-1)]

/-- The color would be dropped, but its percent is refused before. -/
theorem blank_color_refused :
    blankColorParams.Alike {} ∧
      PostFilter.build (fun _ => 11) blankColorParams = .error .badColorPercent ∧
      PostFilter.build (fun _ => 11) {} = .ok .everything := by
  refine ⟨?_, by decide +kernel, by decide +kernel⟩
  exact
    { limit := .inl rfl
      order := rfl
      cursor := rfl
      nsfw := rfl
      grayscale := rfl
      sprocket := rfl
      seed := fun _ => rfl
      ids := .none
      title := .none
      author := .none
      colors := by
        have hnone : namedPairs blankColorParams.pairs = [] := by decide +kernel
        rw [hnone]
        exact fun _ => Iff.rfl
      spare := rfl
      keywords := fun _ => Iff.rfl
      minWidth := rfl
      maxWidth := rfl
      minHeight := rfl
      maxHeight := rfl
      minAspectRatio := rfl
      maxAspectRatio := rfl }

end FilmCatalog
