import FilmCatalog.Proofs.Filter.Normal
import FilmCatalog.Proofs.Number.PlainText
import FilmCatalog.Proofs.Page.Query
import FilmCatalog.Proofs.Post.Author

/-!
# Page addresses tell listings apart

The pairs of a page address are read back from its query string, and every field
of a filter has a name of its own there, the colors two of them. So the values of
the names give the fields: numbers are written differently if they are different,
and an author is the mark and the name that is shown. What an address leaves out
is the cursor that the filter itself has, and whether it has an empty set of ids
or none.

Key definitions: `Query.valuesOf`.
Key theorems: `PostFilter.read_query`, `addresses_told_apart`.
-/

namespace FilmCatalog

/-! ## Values under a name -/

namespace Query

/-- The values that stand under a name, in their order. -/
def valuesOf (name : String) (pairs : List (String × String)) : List String :=
  pairs.filterMap fun pair => if pair.1 = name then some pair.2 else none

@[simp] theorem valuesOf_nil (name : String) : valuesOf name [] = [] := rfl

@[simp] theorem valuesOf_cons (name : String) (pair : String × String)
    (pairs : List (String × String)) :
    valuesOf name (pair :: pairs) =
      if pair.1 = name then pair.2 :: valuesOf name pairs else valuesOf name pairs := by
  by_cases h : pair.1 = name <;> simp [valuesOf, h]

@[simp] theorem valuesOf_append (name : String) (pairs more : List (String × String)) :
    valuesOf name (pairs ++ more) = valuesOf name pairs ++ valuesOf name more :=
  List.filterMap_append

@[simp] theorem valuesOf_pairOf {α : Type} (name other : String) (g : α → String) (o : Option α) :
    valuesOf name (PostFilter.pairOf other g o) = if other = name then o.toList.map g else [] := by
  cases o <;> simp [PostFilter.pairOf]

@[simp] theorem valuesOf_map {α : Type} (name other : String) (g : α → String) (xs : List α) :
    valuesOf name (xs.map fun x => (other, g x)) = if other = name then xs.map g else [] := by
  induction xs with
  | nil => simp
  | cons x xs ih =>
    rw [List.map_cons, valuesOf_cons, ih]
    split_ifs <;> simp

@[simp] theorem valuesOf_texts (name other : String) (xs : List String) :
    valuesOf name (xs.map fun x => (other, x)) = if other = name then xs else [] := by
  simpa using valuesOf_map name other id xs

/-- The names and the shares of colors stand in turn. -/
@[simp] theorem valuesOf_colors (name : String) (colors : List ColorPredicate) :
    valuesOf name (colors.flatMap fun c =>
        [("color", c.name), ("min_color", c.minPercent.plainText)]) =
      if "color" = name then colors.map (·.name)
      else if "min_color" = name then colors.map (·.minPercent.plainText) else [] := by
  induction colors with
  | nil => simp
  | cons c colors ih =>
    rw [List.flatMap_cons, valuesOf_append, ih]
    by_cases h : "color" = name
    · subst h
      simp
    · simp only [valuesOf_cons, if_neg h, valuesOf_nil]
      split_ifs <;> simp

end Query

/-! ## Fields -/

theorem SortMode.queryName_injective : Function.Injective SortMode.queryName := by
  intro a b h
  cases a <;> cases b <;> first | rfl | exact absurd h (by decide)

theorem intText_injective : Function.Injective (toString : Int → String) :=
  fun _ _ h => Int.repr_injective h

namespace PostFilter

theorem flagText_injective : Function.Injective flagText := by decide

/-- Two optional values are the same if they are written the same. -/
theorem option_eq_of_texts {α : Type} {g : α → String} {x y : Option α}
    (hg : ∀ a ∈ x, ∀ b ∈ y, g a = g b → a = b) (h : x.toList.map g = y.toList.map g) : x = y := by
  cases x with
  | none => cases y with
    | none => rfl
    | some b => cases h
  | some a => cases y with
    | none => cases h
    | some b => rw [hg a rfl b rfl (List.cons.inj h).1]

/-- The pairs of an address are read back from its query string. -/
theorem read_query {f : PostFilter} {c : Int} {query : String}
    (h : f.pageUrl c = "/posts?" ++ query) : Query.read query = f.pagePairs c := by
  rw [← (String.append_right_inj "/posts?").1 h, Query.read_ofPairs]

theorem pagePairs_of_pageUrl_eq {f g : PostFilter} {c d : Int} (h : f.pageUrl c = g.pageUrl d) :
    f.pagePairs c = g.pagePairs d :=
  (read_query h).symm.trans (Query.read_ofPairs _)

theorem colors_eq_of_texts {cs ds : List ColorPredicate}
    (hname : cs.map (·.name) = ds.map (·.name))
    (hshare : cs.map (·.minPercent.plainText) = ds.map (·.minPercent.plainText)) : cs = ds := by
  have hzip : cs.map (fun c => (c.name, c.minPercent.plainText)) =
      ds.map (fun c => (c.name, c.minPercent.plainText)) := by
    rw [← List.zip_map', hname, hshare, List.zip_map']
  refine List.map_injective_iff.2 ?_ hzip
  rintro ⟨a, x⟩ ⟨b, y⟩ h
  obtain ⟨rfl, hxy⟩ := Prod.mk.inj h
  exact congrArg _ (Double.plainText_injective hxy)

/-- Sets of ids that are not empty are given by the ids that are listed. -/
theorem ids_eq_of_texts {x y : Option (List Int)} (hx : x ≠ some []) (hy : y ≠ some [])
    (h : (x.getD []).map toString = (y.getD []).map toString) : x = y := by
  have hids : x.getD [] = y.getD [] := List.map_injective_iff.2 intText_injective h
  cases x with
  | none => cases y with
    | none => rfl
    | some ys => exact absurd (congrArg some hids.symm) hy
  | some xs => cases y with
    | none => exact absurd (congrArg some hids) hx
    | some ys => exact congrArg some hids

theorem fields_of_pagePairs_eq {f g : PostFilter} (hf : f.Normal) (hg : g.Normal)
    (hfids : f.ids ≠ some []) (hgids : g.ids ≠ some []) {c d : Int}
    (h : f.pagePairs c = g.pagePairs d) : c = d ∧ { f with cursor := g.cursor } = g := by
  -- no two fields share a name, so the values of its name are what a field is written as
  have key : ∀ name, Query.valuesOf name (f.pagePairs c) = Query.valuesOf name (g.pagePairs d) :=
    fun name => congrArg _ h
  simp only [pagePairs, Query.valuesOf_append, Query.valuesOf_pairOf, Query.valuesOf_map,
    Query.valuesOf_texts, Query.valuesOf_colors, Query.valuesOf_cons, Query.valuesOf_nil] at key
  have hint {x y : Option Int} : x.toList.map toString = y.toList.map toString → x = y :=
    option_eq_of_texts fun a _ b _ hab => intText_injective hab
  have hflag {x y : Option Bool} : x.toList.map flagText = y.toList.map flagText → x = y :=
    option_eq_of_texts fun a _ b _ hab => flagText_injective hab
  have hdouble {x y : Option Double} :
      x.toList.map Double.plainText = y.toList.map Double.plainText → x = y :=
    option_eq_of_texts fun a _ b _ hab => Double.plainText_injective hab
  have hcursor : c = d := intText_injective (by simpa using key "page_id")
  have hsort : f.sort = g.sort := SortMode.queryName_injective (by simpa using key "sort")
  have hlimit : f.limit = g.limit := hint (by simpa using key "page_size")
  have hseed : f.seed = g.seed := hint (by simpa using key "seed")
  have hnsfw : f.nsfw = g.nsfw := hflag (by simpa using key "nsfw")
  have hgrayscale : f.grayscale = g.grayscale := hflag (by simpa using key "grayscale")
  have hsprocket : f.sprocket = g.sprocket := hflag (by simpa using key "sprocket")
  have htitle : f.title = g.title :=
    option_eq_of_texts (fun _ _ _ _ hab => hab) (by simpa using key "title")
  have hauthor : f.author = g.author :=
    option_eq_of_texts
      (fun a ha b hb => (Author.shown_inj (hf.author_marked a ha).1 (hg.author_marked b hb).1).1)
      (by simpa using key "author")
  have hids : f.ids = g.ids := ids_eq_of_texts hfids hgids (by simpa using key "ids")
  have hcolors : f.colors = g.colors :=
    colors_eq_of_texts (by simpa using key "color") (by simpa using key "min_color")
  have hkeywords : f.keywords = g.keywords := by simpa using key "keyword"
  have hwidth : f.width = g.width :=
    congrArg₂ Bounds.mk (hint (by simpa using key "min_width"))
      (hint (by simpa using key "max_width"))
  have hheight : f.height = g.height :=
    congrArg₂ Bounds.mk (hint (by simpa using key "min_height"))
      (hint (by simpa using key "max_height"))
  have hratio : f.aspectRatio = g.aspectRatio :=
    congrArg₂ Bounds.mk (hdouble (by simpa using key "min_aspect_ratio"))
      (hdouble (by simpa using key "max_aspect_ratio"))
  refine ⟨hcursor, ?_⟩
  rw [hsort, hlimit, hseed, hnsfw, hgrayscale, hsprocket, htitle, hauthor, hids, hcolors, hkeywords,
    hwidth, hheight, hratio]

end PostFilter

/-- Filters that were constructed have one page address only if the cursors are the
same and the filters differ at most in their own cursor, unless one has an empty set
of ids. -/
theorem addresses_told_apart {f g : PostFilter} (hf : f.Constructed) (hg : g.Constructed)
    (hfids : f.ids ≠ some []) (hgids : g.ids ≠ some []) (c d : Int) :
    f.pageUrl c = g.pageUrl d ↔ c = d ∧ { f with cursor := g.cursor } = g := by
  constructor
  · intro h
    exact PostFilter.fields_of_pagePairs_eq hf.normal hg.normal hfids hgids
      (PostFilter.pagePairs_of_pageUrl_eq h)
  · rintro ⟨rfl, h⟩
    rw [← h]
    rfl

/-- A request whose title looks like the end of an address. -/
def forgingParams : FilterParams where
  title := some "dusk&author=ada"
  colors := ["red"]
  minColorPercents := [Double.ofInt 40]

/-- The request that this title looks like. -/
def forgedParams : FilterParams where
  title := some "dusk"
  author := some "ada"
  colors := ["red"]
  minColorPercents := [Double.ofInt 40]

theorem forged_told_apart :
    ∃ f g, PostFilter.build (fun _ => firstSeed) forgingParams = .ok f ∧
      PostFilter.build (fun _ => firstSeed) forgedParams = .ok g ∧
      f.Constructed ∧ g.Constructed ∧ f.ids ≠ some [] ∧ g.ids ≠ some [] ∧
      f.pageUrl 7 ≠ g.pageUrl 7 ∧ f.pageUrl 7 ≠ f.pageUrl 8 := by
  obtain ⟨f, hf⟩ : ∃ f, PostFilter.build (fun _ => firstSeed) forgingParams = .ok f := ⟨_, rfl⟩
  obtain ⟨g, hg⟩ : ∃ g, PostFilter.build (fun _ => firstSeed) forgedParams = .ok g := ⟨_, rfl⟩
  obtain rfl := (PostFilter.build_eq_ok_iff.1 hf).2
  obtain rfl := (PostFilter.build_eq_ok_iff.1 hg).2
  have hfc := PostFilter.Constructed.build hf
  have hgc := PostFilter.Constructed.build hg
  have hfids : (forgingParams.toFilter fun _ => firstSeed).ids ≠ some [] := by
    simp [FilterParams.toFilter, forgingParams]
  have hgids : (forgedParams.toFilter fun _ => firstSeed).ids ≠ some [] := by
    simp [FilterParams.toFilter, forgedParams]
  refine ⟨_, _, hf, hg, hfc, hgc, hfids, hgids, fun h => ?_, fun h => ?_⟩
  · have hsame := ((addresses_told_apart hfc hgc hfids hgids 7 7).1 h).2
    exact absurd (congrArg PostFilter.title hsame) (by decide)
  · exact absurd ((addresses_told_apart hfc hfc hfids hfids 7 8).1 h).1 (by decide)

/-- An empty set of ids leaves no trace in an address. -/
example : (PostFilter.byIds []).pageUrl 7 = PostFilter.everything.pageUrl 7 := by
  decide +kernel

end FilmCatalog
