import FilmCatalog.Proofs.Cache.Keys
import FilmCatalog.Proofs.Filter.Normal
import FilmCatalog.Proofs.Json.Canonical

/-!
# Requests told apart by their keys

The canonical text of a request keeps every field: a missing value and a present
one, nested ranges, the order and the members of lists, and every finite double.
So two requests with one canonical text are one request, and two with one cache
key are one as well, or else their texts are a collision of the digest.

Key definitions: `Digest.Collision`, `CachedRequest`.
Key theorems: `PostFilter.tells`, `SimilarityFilter.tells`, `Digest.sha256_eq_of_hex`,
`requests_told_apart`.
-/

namespace FilmCatalog

/-! ## Fields -/

theorem Bounds.tells {α : Type} {write : α → Json} (h : Json.Tells write)
    (hnull : ∀ a, (write a).sorted ≠ .null) : Json.Tells (Bounds.toJson write) := by
  rintro ⟨low, high⟩ ⟨low', high'⟩ hab
  rw [Bounds.toJson, Bounds.toJson] at hab
  have hvalues := Json.values_eq_of_sorted (by rfl) (by simp) hab
  simp only [List.map_cons, List.map_nil, List.cons.injEq, and_true] at hvalues
  rw [(h.ofOption hnull) hvalues.1, (h.ofOption hnull) hvalues.2]

theorem ColorPredicate.tells : Json.Tells ColorPredicate.toJson := by
  rintro ⟨name, percent⟩ ⟨name', percent'⟩ hab
  rw [ColorPredicate.toJson, ColorPredicate.toJson] at hab
  have hvalues := Json.values_eq_of_sorted (by rfl) (by simp) hab
  simp only [List.map_cons, List.map_nil, List.cons.injEq, and_true] at hvalues
  rw [Json.tells_text hvalues.1, Json.tells_double hvalues.2]

theorem SortMode.name_injective : Function.Injective SortMode.name := by
  intro a b h
  cases a <;> cases b <;> first | rfl | exact absurd h (by decide)

theorem tells_intOption : Json.Tells (Json.ofOption Json.int) :=
  Json.tells_int.ofOption fun _ => Json.noConfusion

theorem tells_boolOption : Json.Tells (Json.ofOption Json.bool) :=
  Json.tells_bool.ofOption fun _ => Json.noConfusion

theorem tells_textOption : Json.Tells (Json.ofOption Json.text) :=
  Json.tells_text.ofOption fun _ => Json.noConfusion

/-- A filter is determined by its JSON, whatever the order of members. -/
theorem PostFilter.tells : Json.Tells PostFilter.toJson := by
  rintro ⟨⟩ ⟨⟩ hfg
  rw [PostFilter.toJson, PostFilter.toJson] at hfg
  have hvalues := Json.values_eq_of_sorted (by rfl) (by simp) hfg
  simp only [List.map_cons, List.map_nil, List.cons.injEq, and_true] at hvalues
  obtain ⟨hlimit, hsort, hcursor, hnsfw, hgrayscale, hsprocket, hseed, hids, htitle, hauthor,
    hcolors, hkeywords, hwidth, hheight, hratio⟩ := hvalues
  have hidLists : Json.Tells (Json.ofOption (Json.ofList Json.int)) :=
    Json.tells_int.ofList.ofOption fun _ => Json.noConfusion
  have hranges : Json.Tells (Bounds.toJson Json.int) :=
    Bounds.tells Json.tells_int fun _ => Json.noConfusion
  have hratios : Json.Tells (Bounds.toJson Json.double) :=
    Bounds.tells Json.tells_double fun _ => Json.noConfusion
  rw [PostFilter.mk.injEq]
  exact ⟨tells_intOption hlimit, SortMode.name_injective (Json.tells_text hsort),
    tells_intOption hcursor, tells_boolOption hnsfw, tells_boolOption hgrayscale,
    tells_boolOption hsprocket, tells_intOption hseed, hidLists hids, tells_textOption htitle,
    tells_textOption hauthor, ColorPredicate.tells.ofList hcolors, Json.tells_text.ofList hkeywords,
    hranges hwidth, hranges hheight, hratios hratio⟩

theorem SimilarityFilter.tells : Json.Tells SimilarityFilter.toJson := by
  rintro ⟨⟩ ⟨⟩ hfg
  rw [SimilarityFilter.toJson, SimilarityFilter.toJson] at hfg
  have hvalues := Json.values_eq_of_sorted (by rfl) (by simp) hfg
  simp only [List.map_cons, List.map_nil, List.cons.injEq, and_true] at hvalues
  obtain ⟨hid, hlimit, hnsfw, hgrayscale, hsprocket, hexclude⟩ := hvalues
  rw [SimilarityFilter.mk.injEq]
  exact ⟨Json.tells_int hid, Json.tells_int hlimit, tells_boolOption hnsfw,
    tells_boolOption hgrayscale, tells_boolOption hsprocket, Json.tells_int.ofList hexclude⟩

/-! ## Finite doubles -/

theorem Bounds.allFinite {α : Type} {write : α → Json} {b : Bounds α}
    (h : ∀ a, a ∈ b.min ∨ a ∈ b.max → (write a).AllFinite) : (b.toJson write).AllFinite := by
  apply Json.allFinite_object
  intro m hm
  simp only [List.mem_cons, List.not_mem_nil, or_false] at hm
  rcases hm with rfl | rfl
  · exact Json.allFinite_ofOption fun a ha => h a (.inl ha)
  · exact Json.allFinite_ofOption fun a ha => h a (.inr ha)

theorem SimilarityFilter.allFinite (f : SimilarityFilter) : f.toJson.AllFinite := by
  have hflag (o : Option Bool) : (Json.ofOption Json.bool o).AllFinite :=
    Json.allFinite_ofOption fun b _ => Json.allFinite_bool b
  apply Json.allFinite_object
  intro m hm
  simp only [List.mem_cons, List.not_mem_nil, or_false] at hm
  rcases hm with rfl | rfl | rfl | rfl | rfl | rfl
  · exact Json.allFinite_int f.id
  · exact Json.allFinite_int f.limit
  · exact hflag f.nsfw
  · exact hflag f.grayscale
  · exact hflag f.sprocket
  · exact Json.allFinite_ofList fun i _ => Json.allFinite_int i

/-- The doubles of a filter in normal form are finite. -/
theorem PostFilter.Normal.allFinite {f : PostFilter} (h : f.Normal) : f.toJson.AllFinite := by
  have hint (o : Option ℤ) : (Json.ofOption Json.int o).AllFinite :=
    Json.allFinite_ofOption fun i _ => Json.allFinite_int i
  have hflag (o : Option Bool) : (Json.ofOption Json.bool o).AllFinite :=
    Json.allFinite_ofOption fun b _ => Json.allFinite_bool b
  have htext (o : Option String) : (Json.ofOption Json.text o).AllFinite :=
    Json.allFinite_ofOption fun s _ => Json.allFinite_text s
  have hcolor : ∀ c ∈ f.colors, c.toJson.AllFinite := by
    intro c hc
    apply Json.allFinite_object
    intro m hm
    simp only [List.mem_cons, List.not_mem_nil, or_false] at hm
    rcases hm with rfl | rfl
    · exact Json.allFinite_text c.name
    · exact Json.allFinite_double (h.colors_shares c hc).1
  apply Json.allFinite_object
  intro m hm
  simp only [List.mem_cons, List.not_mem_nil, or_false] at hm
  rcases hm with rfl | rfl | rfl | rfl | rfl | rfl | rfl | rfl | rfl | rfl | rfl | rfl | rfl |
    rfl | rfl
  · exact hint f.limit
  · exact Json.allFinite_text f.sort.name
  · exact hint f.cursor
  · exact hflag f.nsfw
  · exact hflag f.grayscale
  · exact hflag f.sprocket
  · exact hint f.seed
  · exact Json.allFinite_ofOption fun ids _ => Json.allFinite_ofList fun i _ => Json.allFinite_int i
  · exact htext f.title
  · exact htext f.author
  · exact Json.allFinite_ofList hcolor
  · exact Json.allFinite_ofList fun word _ => Json.allFinite_text word
  · exact Bounds.allFinite fun i _ => Json.allFinite_int i
  · exact Bounds.allFinite fun i _ => Json.allFinite_int i
  · exact Bounds.allFinite fun x hx => Json.allFinite_double (h.ratio_finite x hx)

/-! ## Digests -/

namespace Digest

/-- Whether two texts have different bytes and one digest. -/
def Collision (s t : String) : Prop :=
  s.toUTF8 ≠ t.toUTF8 ∧ sha256 s.toUTF8.toList = sha256 t.toUTF8.toList

theorem hexDigit_injective : ∀ m < 16, ∀ n < 16, Text.hexDigit m = Text.hexDigit n → m = n := by
  decide

/-- A word is determined by its digits, which are equal from the first one on. -/
theorem hexWord_injective : Function.Injective hexWord := by
  intro v w h
  have hdigits : ∀ i < 8, (v.toNat >>> (4 * (7 - i))) % 16 = (w.toNat >>> (4 * (7 - i))) % 16 := by
    intro i hi
    refine hexDigit_injective _ (Nat.mod_lt _ (by decide)) _ (Nat.mod_lt _ (by decide)) ?_
    exact List.map_inj_left.1 h i (List.mem_range.2 hi)
  have hfirst : ∀ i ≤ 8, v.toNat >>> (4 * (8 - i)) = w.toNat >>> (4 * (8 - i)) := by
    intro i
    induction i with
    | zero =>
      intro _
      rw [Nat.shiftRight_eq_zero _ _ v.toNat_lt, Nat.shiftRight_eq_zero _ _ w.toNat_lt]
    | succ i ih =>
      intro hi
      have hbefore := ih (by omega)
      have hdigit := hdigits i (by omega)
      rw [show 4 * (8 - i) = 4 * (7 - i) + 4 by omega, Nat.shiftRight_add, Nat.shiftRight_add,
        Nat.shiftRight_eq_div_pow _ 4, Nat.shiftRight_eq_div_pow _ 4] at hbefore
      rw [show 8 - (i + 1) = 7 - i by omega]
      omega
  exact UInt32.toNat_inj.1 (hfirst 8 le_rfl)

theorem length_hexWord (w : UInt32) : (hexWord w).length = 8 := by
  rw [hexWord, List.length_map, List.length_range]

theorem eq_of_flatMap_hexWord {vs ws : List UInt32} (h : vs.flatMap hexWord = ws.flatMap hexWord) :
    vs = ws := by
  induction vs generalizing ws with
  | nil =>
    cases ws with
    | nil => rfl
    | cons w ws =>
      have hlength := congrArg List.length h
      rw [List.flatMap_cons, List.length_append, length_hexWord] at hlength
      simp at hlength
      omega
  | cons v vs ih =>
    cases ws with
    | nil =>
      have hlength := congrArg List.length h
      rw [List.flatMap_cons, List.length_append, length_hexWord] at hlength
      simp at hlength
    | cons w ws =>
      rw [List.flatMap_cons, List.flatMap_cons] at h
      obtain ⟨hword, hrest⟩ := List.append_inj h (by rw [length_hexWord, length_hexWord])
      rw [hexWord_injective hword, ih hrest]

/-- Texts with the digits of one digest are one text or a collision. -/
theorem eq_or_collision {s t : String} (h : sha256Hex s = sha256Hex t) : s = t ∨ Collision s t := by
  by_cases hbytes : s.toUTF8 = t.toUTF8
  · exact .inl (String.toByteArray_inj.1 hbytes)
  · exact .inr ⟨hbytes, eq_of_flatMap_hexWord (String.ofList_injective h)⟩

end Digest

/-! ## Requests -/

/-- A request whose result is cached under its fingerprint. -/
inductive CachedRequest where
  | listing (f : PostFilter)
  | similar (f : SimilarityFilter)

namespace CachedRequest

/-- A request in JSON. -/
def toJson : CachedRequest → Json
  | .listing f => f.toJson
  | .similar f => f.toJson

/-- The namespace of a request's result. -/
def ns : CachedRequest → Namespace
  | .listing _ => .posts
  | .similar _ => .similar

/-- The key of a request's result. -/
def key (r : CachedRequest) : String := r.ns.key (Fingerprint.of r.toJson)

/-- Whether the filter of a request can be constructed. -/
def Constructed : CachedRequest → Prop
  | .listing f => f.Constructed
  | .similar _ => True

end CachedRequest

namespace PostFilter

/-- A filter is determined by its canonical text. -/
theorem eq_of_canonical {f g : PostFilter} (hf : f.Constructed) (hg : g.Constructed)
    (h : f.toJson.canonical = g.toJson.canonical) : f = g :=
  tells (Json.sorted_eq_of_canonical hf.normal.allFinite hg.normal.allFinite h)

end PostFilter

theorem SimilarityFilter.eq_of_canonical {f g : SimilarityFilter}
    (h : f.toJson.canonical = g.toJson.canonical) : f = g :=
  tells (Json.sorted_eq_of_canonical f.allFinite g.allFinite h)

/-- Requests with one key are one request, or their canonical texts are a collision. -/
theorem CachedRequest.eq_of_key {q r : CachedRequest} (hq : q.Constructed) (hr : r.Constructed)
    (h : q.key = r.key) : q = r ∨ Digest.Collision q.toJson.canonical r.toJson.canonical := by
  obtain ⟨hns, hfingerprint⟩ := Namespace.key_inj.1 h
  refine (Digest.eq_or_collision hfingerprint).imp_left fun hcanonical => ?_
  cases q with
  | listing f =>
    cases r with
    | listing g => rw [PostFilter.eq_of_canonical hq hr hcanonical]
    | similar g => cases hns
  | similar f =>
    cases r with
    | listing g => cases hns
    | similar g => rw [SimilarityFilter.eq_of_canonical hcanonical]

/-- Filters are told apart by their canonical texts, and keys by their namespaces and
ids. So different requests never share a cache entry, unless their canonical texts
are a collision of the digest. -/
theorem requests_told_apart :
    (∀ f g : PostFilter, f.Constructed → g.Constructed →
      (f.toJson.canonical = g.toJson.canonical ↔ f = g)) ∧
    (∀ f g : SimilarityFilter, f.toJson.canonical = g.toJson.canonical ↔ f = g) ∧
    (∀ (ns ns' : Namespace) (a b : String), ns.key a = ns'.key b ↔ ns = ns' ∧ a = b) ∧
    ∀ q r : CachedRequest, q.Constructed → r.Constructed → q.key = r.key →
      q = r ∨ Digest.Collision q.toJson.canonical r.toJson.canonical := by
  refine ⟨fun f g hf hg => ⟨PostFilter.eq_of_canonical hf hg, ?_⟩,
    fun f g => ⟨SimilarityFilter.eq_of_canonical, ?_⟩,
    fun ns ns' a b => Namespace.key_inj, fun q r => CachedRequest.eq_of_key⟩
  · rintro rfl
    rfl
  · rintro rfl
    rfl

/-- A filter with an empty set of ids and one with none are told apart. -/
theorem empty_ids_told_apart :
    PostFilter.everything.Constructed ∧ (PostFilter.byIds []).Constructed ∧
      PostFilter.everything.toJson.canonical ≠ (PostFilter.byIds []).toJson.canonical := by
  have heverything := PostFilter.Constructed.everything
  have hids := PostFilter.Constructed.byIds []
  refine ⟨heverything, hids, fun h => ?_⟩
  have heq := (requests_told_apart.1 _ _ heverything hids).1 h
  exact absurd (congrArg PostFilter.ids heq) (by simp [PostFilter.everything, PostFilter.byIds])

end FilmCatalog
