import FilmCatalog.Proofs.Cache.Requests

/-!
# Equal filters and their keys

Filters are compared field by field, doubles as numbers: the two zeros are one
number. Their texts are two, `0.0` and `-0.0`. So equal filters have one
canonical text, and one key, exactly if they have negative zeros in the same
places. A share or a ratio of negative zero is accepted and kept as it is given,
so there are equal filters of which neither is answered from the entry of the
other.

Key definitions: `PostFilter.Same`, `PostFilter.negativeZeros`.
Key theorems: `PostFilter.Same.eq_iff`, `same_filters_share_key_iff`, `zeros_told_apart`.
-/

namespace FilmCatalog

/-! ## Doubles -/

namespace Double

/-- Whether `x` is the zero that is written `-0.0`. -/
def isNegativeZero (x : Double) : Bool := x.isZero && x.negative

/-- Equal numbers are one double unless one of them is a negative zero and the other is not. -/
theorem eq_of_equal {x y : Double} (h : x.equal y = true)
    (hzero : x.isNegativeZero = y.isNegativeZero) : x = y := by
  have hkey : x.key = y.key := by
    simp only [equal, Bool.and_eq_true, decide_eq_true_eq] at h
    exact h.2
  obtain ⟨negative, magnitude⟩ := x
  obtain ⟨negative', magnitude'⟩ := y
  simp only [isNegativeZero, isZero, key] at hzero hkey
  rw [Double.mk.injEq, Fin.ext_iff]
  -- different signs with one key are those of the two zeros
  cases negative <;> cases negative' <;> simp at hzero hkey ⊢ <;> omega

end Double

/-! ## Filters -/

/-- Whether two ranges have equal ends. -/
structure Bounds.Same {α : Type} (equal : α → α → Prop) (a b : Bounds α) : Prop where
  min : Option.Rel equal a.min b.min
  max : Option.Rel equal a.max b.max

namespace PostFilter

/-- Whether two filters are equal, both zeros being one number. -/
structure Same (f g : PostFilter) : Prop where
  limit : f.limit = g.limit
  sort : f.sort = g.sort
  cursor : f.cursor = g.cursor
  nsfw : f.nsfw = g.nsfw
  grayscale : f.grayscale = g.grayscale
  sprocket : f.sprocket = g.sprocket
  seed : f.seed = g.seed
  ids : f.ids = g.ids
  title : f.title = g.title
  author : f.author = g.author
  colors : List.Forall₂ (fun a b => ColorPredicate.same a b = true) f.colors g.colors
  keywords : f.keywords = g.keywords
  width : f.width = g.width
  height : f.height = g.height
  aspectRatio : f.aspectRatio.Same (fun x y => x.equal y = true) g.aspectRatio

/-- The doubles of a filter in the order of its fields. -/
def numbers (f : PostFilter) : List Double :=
  f.colors.map (·.minPercent) ++ (f.aspectRatio.min.toList ++ f.aspectRatio.max.toList)

/-- Which of the doubles of a filter are negative zeros. -/
def negativeZeros (f : PostFilter) : List Bool := f.numbers.map Double.isNegativeZero

end PostFilter

theorem ColorPredicate.eq_of_same {a b : ColorPredicate} (h : same a b = true)
    (hzero : a.minPercent.isNegativeZero = b.minPercent.isNegativeZero) : a = b := by
  obtain ⟨hname, hpercent⟩ := same_iff.1 h
  rw [ColorPredicate.mk.injEq]
  exact ⟨hname, Double.eq_of_equal hpercent hzero⟩

theorem colors_eq_of_same {cs ds : List ColorPredicate}
    (h : List.Forall₂ (fun a b => ColorPredicate.same a b = true) cs ds)
    (hzeros : cs.map (·.minPercent.isNegativeZero) = ds.map (·.minPercent.isNegativeZero)) :
    cs = ds := by
  induction h with
  | nil => rfl
  | cons hab _ ih =>
    obtain ⟨hzero, hrest⟩ := List.cons.inj hzeros
    rw [ColorPredicate.eq_of_same hab hzero, ih hrest]

section Ends
variable {x y : Option Double} (h : Option.Rel (fun x y => x.equal y = true) x y)
include h

theorem end_eq_of_same
    (hzero : x.toList.map Double.isNegativeZero = y.toList.map Double.isNegativeZero) : x = y := by
  cases h with
  | none => rfl
  | some hxy => rw [Double.eq_of_equal hxy (List.cons.inj hzero).1]

theorem length_end_of_same : x.toList.length = y.toList.length := by
  cases h with
  | none => rfl
  | some _ => rfl

end Ends

namespace PostFilter

variable {f g : PostFilter}

/-- Equal filters are one filter exactly if their negative zeros are in the same places. -/
theorem Same.eq_iff (h : f.Same g) : f = g ↔ f.negativeZeros = g.negativeZeros := by
  constructor
  · rintro rfl
    rfl
  · intro hzeros
    simp only [negativeZeros, numbers, List.map_append, List.map_map] at hzeros
    obtain ⟨hcolors, hends⟩ := List.append_inj hzeros (by simp [h.colors.length_eq])
    obtain ⟨hmin, hmax⟩ := List.append_inj hends (by
      simp [length_end_of_same h.aspectRatio.min])
    have hratio : f.aspectRatio = g.aspectRatio := by
      rw [Bounds.mk.injEq]
      exact ⟨end_eq_of_same h.aspectRatio.min hmin, end_eq_of_same h.aspectRatio.max hmax⟩
    have hpredicates : f.colors = g.colors := colors_eq_of_same h.colors hcolors
    rw [PostFilter.mk.injEq]
    exact ⟨h.limit, h.sort, h.cursor, h.nsfw, h.grayscale, h.sprocket, h.seed, h.ids, h.title,
      h.author, hpredicates, h.keywords, h.width, h.height, hratio⟩

end PostFilter

/-- Of equal filters that can be constructed: they have one canonical text, and so one
cache key, if they have negative zeros in the same places. Otherwise their texts differ,
and so do their keys unless the texts are a collision of the digest. -/
theorem same_filters_share_key_iff {f g : PostFilter} (hf : f.Constructed) (hg : g.Constructed)
    (h : f.Same g) :
    (f.toJson.canonical = g.toJson.canonical ↔ f.negativeZeros = g.negativeZeros) ∧
    (f.negativeZeros = g.negativeZeros →
      (CachedRequest.listing f).key = (CachedRequest.listing g).key) ∧
    ((CachedRequest.listing f).key = (CachedRequest.listing g).key →
      f.negativeZeros = g.negativeZeros ∨
        Digest.Collision f.toJson.canonical g.toJson.canonical) := by
  refine ⟨?_, fun hzeros => ?_, fun hkey => ?_⟩
  · rw [← h.eq_iff]
    refine ⟨PostFilter.eq_of_canonical hf hg, fun heq => ?_⟩
    rw [heq]
  · rw [h.eq_iff.2 hzeros]
  · refine (CachedRequest.eq_of_key (q := .listing f) (r := .listing g) hf hg hkey).imp_left ?_
    intro hfg
    exact h.eq_iff.1 (CachedRequest.listing.inj hfg)

/-! ## The two zeros -/

theorem PostFilter.same_everything : everything.Same everything where
  limit := rfl
  sort := rfl
  cursor := rfl
  nsfw := rfl
  grayscale := rfl
  sprocket := rfl
  seed := rfl
  ids := rfl
  title := rfl
  author := rfl
  colors := .nil
  keywords := rfl
  width := rfl
  height := rfl
  aspectRatio := ⟨.none, .none⟩

/-- A request for photographs with any share of red, written with one of the zeros. -/
def zeroShareParams (negative : Bool) : FilterParams where
  colors := ["red"]
  minColorPercents := [.zero negative]

/-- Its filter. -/
def zeroShareFilter (negative : Bool) : PostFilter :=
  { PostFilter.everything with colors := [⟨"red", .zero negative⟩] }

theorem build_zeroShare (negative : Bool) :
    PostFilter.build (fun _ => 11) (zeroShareParams negative) = .ok (zeroShareFilter negative) := by
  cases negative <;> decide +kernel

theorem zeroShare_same : (zeroShareFilter false).Same (zeroShareFilter true) :=
  { PostFilter.same_everything with colors := .cons (by decide) .nil }

/-- The two filters share a key only if their texts are a collision. -/
theorem shares_keyed_apart :
    (zeroShareFilter false).Constructed ∧ (zeroShareFilter true).Constructed ∧
      (zeroShareFilter false).Same (zeroShareFilter true) ∧
      (zeroShareFilter false).toJson.canonical ≠ (zeroShareFilter true).toJson.canonical ∧
      ((CachedRequest.listing (zeroShareFilter false)).key =
        (CachedRequest.listing (zeroShareFilter true)).key →
          Digest.Collision (zeroShareFilter false).toJson.canonical
            (zeroShareFilter true).toJson.canonical) := by
  have hfalse := PostFilter.Constructed.build (build_zeroShare false)
  have htrue := PostFilter.Constructed.build (build_zeroShare true)
  obtain ⟨htext, -, hkey⟩ := same_filters_share_key_iff hfalse htrue zeroShare_same
  have hzeros : (zeroShareFilter false).negativeZeros ≠ (zeroShareFilter true).negativeZeros := by
    decide
  exact ⟨hfalse, htrue, zeroShare_same, fun h => hzeros (htext.1 h), fun h =>
    (hkey h).resolve_left hzeros⟩

/-- A request for photographs of any ratio, with one of the zeros as the least ratio. -/
def zeroRatioParams (negative : Bool) : FilterParams where
  minAspectRatio := some (.zero negative)

/-- Its filter. -/
def zeroRatioFilter (negative : Bool) : PostFilter :=
  { PostFilter.everything with aspectRatio := ⟨some (.zero negative), none⟩ }

theorem zeroRatio_same : (zeroRatioFilter false).Same (zeroRatioFilter true) :=
  { PostFilter.same_everything with aspectRatio := ⟨.some (by decide), .none⟩ }

/-- The two filters are equal, but their texts differ. -/
theorem zeros_told_apart :
    PostFilter.build (fun _ => 11) (zeroRatioParams false) = .ok (zeroRatioFilter false) ∧
      PostFilter.build (fun _ => 11) (zeroRatioParams true) = .ok (zeroRatioFilter true) ∧
      (zeroRatioFilter false).Same (zeroRatioFilter true) ∧
      (zeroRatioFilter false).toJson.canonical ≠ (zeroRatioFilter true).toJson.canonical := by
  have hbuild : ∀ negative, PostFilter.build (fun _ => 11) (zeroRatioParams negative) =
      .ok (zeroRatioFilter negative) := by
    decide +kernel
  refine ⟨hbuild false, hbuild true, zeroRatio_same, fun h => ?_⟩
  have heq := PostFilter.eq_of_canonical (.build (hbuild false)) (.build (hbuild true)) h
  exact absurd (congrArg PostFilter.negativeZeros heq) (by decide)

end FilmCatalog
