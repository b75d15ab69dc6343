import FilmCatalog.Proofs.Json.Canonical
import FilmCatalog.Cache.Key

/-!
# What a canonical text keeps

Two values are alike if they differ in the order of members only, at any depth.
The canonical text forgets that order and nothing else: values whose objects name
each member once have one canonical text exactly if they are alike. What stands
in an array stays in its place.

Key definitions: `Json.NamedOnce`, `Json.Alike`.
Key theorems: `Json.sorted_eq_iff_alike`, `Json.canonical_eq_iff_alike`.
-/

namespace FilmCatalog.Json

/-- Whether no object in a value has two members of one name. -/
inductive NamedOnce : Json → Prop
  | null : NamedOnce .null
  | bool (b : Bool) : NamedOnce (.bool b)
  | int (i : ℤ) : NamedOnce (.int i)
  | double (x : Double) : NamedOnce (.double x)
  | text (s : String) : NamedOnce (.text s)
  | array {items : List Json} (hitems : ∀ v ∈ items, NamedOnce v) : NamedOnce (.array items)
  | object {members : List (String × Json)} (hnames : (members.map Prod.fst).Nodup)
      (hmembers : ∀ m ∈ members, NamedOnce m.2) : NamedOnce (.object members)

/-- Whether two values are equal up to the order of members: the members of two objects
agree pair by pair once those of the second are rearranged. -/
inductive Alike : Json → Json → Prop
  | null : Alike .null .null
  | bool (b : Bool) : Alike (.bool b) (.bool b)
  | int (i : ℤ) : Alike (.int i) (.int i)
  | double (x : Double) : Alike (.double x) (.double x)
  | text (s : String) : Alike (.text s) (.text s)
  | array {items others : List Json} (hlength : items.length = others.length)
      (hitems : ∀ p ∈ items.zip others, Alike p.1 p.2) : Alike (.array items) (.array others)
  | object {members others rearranged : List (String × Json)} (hperm : rearranged.Perm others)
      (hnames : members.map Prod.fst = rearranged.map Prod.fst)
      (hmembers : ∀ p ∈ members.zip rearranged, Alike p.1.2 p.2.2) :
      Alike (.object members) (.object others)

/-! ## Lists in step -/

/-- Two lists have one image if they are as long and what stands at one place has one image. -/
theorem map_eq_map_iff_zip {α β γ : Type} {f : α → γ} {g : β → γ} {xs : List α} {ys : List β} :
    xs.map f = ys.map g ↔ xs.length = ys.length ∧ ∀ p ∈ xs.zip ys, f p.1 = g p.2 := by
  rw [← List.forall₂_eq_eq_eq, List.forall₂_map_left_iff, List.forall₂_map_right_iff,
    List.forall₂_iff_zip]
  exact and_congr_right fun _ => ⟨fun h p hp => h hp, fun h a b hab => h (a, b) hab⟩

/-- If the image of a list is rearranged, so can the list itself be. -/
theorem exists_perm_of_map {α β : Type} {f : α → β} {xs : List α} {ys : List β}
    (h : ys.Perm (xs.map f)) : ∃ order : List α, order.Perm xs ∧ ys = order.map f := by
  have hstep : Relation.Comp (List.Forall₂ fun a b => f a = b) List.Perm xs ys :=
    ⟨xs.map f, by rw [List.forall₂_map_right_iff]; exact List.forall₂_same.2 fun _ _ => rfl, h.symm⟩
  rw [List.forall₂_comp_perm_eq_perm_comp_forall₂] at hstep
  obtain ⟨order, hperm, himage⟩ := hstep
  refine ⟨order, hperm.symm, ?_⟩
  rw [← List.forall₂_eq_eq_eq, List.forall₂_map_right_iff]
  exact himage.flip.imp fun _ _ h => h.symm

/-! ## Members in order -/

theorem byName_pairwise (members : List (String × Json)) :
    (byName members).Pairwise fun a b => a.1 ≤ b.1 := by
  refine (List.pairwise_mergeSort (fun a b c hab hbc => ?_) (fun a b => ?_) members).imp
    fun h => of_decide_eq_true h
  · exact decide_eq_true ((of_decide_eq_true hab).trans (of_decide_eq_true hbc))
  · rw [Bool.or_eq_true, decide_eq_true_eq, decide_eq_true_eq]
    exact le_total _ _

/-- Members of different names have one order by name, however they are given. -/
theorem byName_eq_of_perm {ms ns : List (String × Json)} (hnodup : (ns.map Prod.fst).Nodup)
    (h : ms.Perm ns) : byName ms = byName ns := by
  have hperm := (byName_perm ms).trans (h.trans (byName_perm ns).symm)
  refine hperm.eq_of_pairwise (fun a b ha hb hab hba => ?_) (byName_pairwise ms)
    (byName_pairwise ns)
  have ha' := h.subset ((byName_perm ms).subset ha)
  have hb' := (byName_perm ns).subset hb
  exact List.inj_on_of_nodup_map hnodup ha' hb' (hab.antisymm hba)

/-! ## Alike values -/

/-- Values are alike if they are equal with their members in order. -/
theorem alike_of_sorted_eq {v w : Json} (h : v.sorted = w.sorted) : v.Alike w := by
  induction v using Json.induction generalizing w with
  | null => cases w with
    | null => exact .null
    | _ => cases h
  | bool b => cases w with
    | bool c => cases h; exact .bool b
    | _ => cases h
  | int i => cases w with
    | int j => cases h; exact .int i
    | _ => cases h
  | double x => cases w with
    | double y => cases h; exact .double x
    | _ => cases h
  | text s => cases w with
    | text t => cases h; exact .text s
    | _ => cases h
  | array items ih => cases w with
    | array others =>
      have hitems := array.inj h
      rw [sortedItems_eq, sortedItems_eq, map_eq_map_iff_zip] at hitems
      exact .array hitems.1 fun p hp => ih _ (List.of_mem_zip hp).1 (hitems.2 p hp)
    | _ => cases h
  | object members ih => cases w with
    | object others =>
      have hbyName : byName (sortedMembers members) = byName (sortedMembers others) := object.inj h
      have hperm : (sortedMembers members).Perm (sortedMembers others) :=
        (byName_perm _).symm.trans (hbyName ▸ byName_perm _)
      rw [sortedMembers_eq others] at hperm
      obtain ⟨rearranged, hperm, himage⟩ := exists_perm_of_map hperm
      rw [sortedMembers_eq, map_eq_map_iff_zip] at himage
      refine .object hperm (map_eq_map_iff_zip.2 ⟨himage.1, fun p hp => ?_⟩) fun p hp => ?_
      · exact (Prod.mk.inj (himage.2 p hp)).1
      · exact ih _ (List.of_mem_zip hp).1 (Prod.mk.inj (himage.2 p hp)).2
    | _ => cases h

/-- Alike values are equal with their members in order, if every member is named once. -/
theorem Alike.sorted_eq {v w : Json} (h : v.Alike w) (hw : w.NamedOnce) :
    v.sorted = w.sorted := by
  induction h with
  | null => rfl
  | bool => rfl
  | int => rfl
  | double => rfl
  | text => rfl
  | array hlength _ ih =>
    cases hw with | array honce =>
    rw [sorted, sorted, sortedItems_eq, sortedItems_eq, map_eq_map_iff_zip.2]
    exact ⟨hlength, fun p hp => ih p hp (honce _ (List.of_mem_zip hp).2)⟩
  | @object members others rearranged hperm hnames _ ih =>
    cases hw with | object hnodup honce =>
    have hsorted : sortedMembers members = sortedMembers rearranged := by
      rw [map_eq_map_iff_zip] at hnames
      rw [sortedMembers_eq, sortedMembers_eq, map_eq_map_iff_zip]
      refine ⟨hnames.1, fun p hp => Prod.ext (hnames.2 p hp) (ih p hp (honce _ ?_))⟩
      exact hperm.subset (List.of_mem_zip hp).2
    have hfst : (sortedMembers others).map Prod.fst = others.map Prod.fst := by
      rw [sortedMembers_eq, List.map_map]
      rfl
    rw [sorted, sorted, hsorted, byName_eq_of_perm (by rwa [hfst])]
    rw [sortedMembers_eq, sortedMembers_eq]
    exact hperm.map _

theorem sorted_eq_iff_alike {v w : Json} (hw : w.NamedOnce) :
    v.sorted = w.sorted ↔ v.Alike w :=
  ⟨alike_of_sorted_eq, fun h => h.sorted_eq hw⟩

theorem canonical_eq_iff_sorted {v w : Json} (hv : v.AllFinite) (hw : w.AllFinite) :
    v.canonical = w.canonical ↔ v.sorted = w.sorted :=
  ⟨sorted_eq_of_canonical hv hw, congrArg compact⟩

/-- Arrays have one canonical text exactly if what stands at each place has. -/
theorem canonical_array_eq_iff {items others : List Json} (hv : (array items).AllFinite)
    (hw : (array others).AllFinite) :
    (array items).canonical = (array others).canonical ↔
      items.map canonical = others.map canonical := by
  rw [canonical_eq_iff_sorted hv hw, sorted, sorted, array.injEq, sortedItems_eq, sortedItems_eq,
    map_eq_map_iff_zip, map_eq_map_iff_zip]
  refine and_congr_right fun _ => forall₂_congr fun p hp => ?_
  exact (canonical_eq_iff_sorted (hv.item (List.of_mem_zip hp).1)
    (hw.item (List.of_mem_zip hp).2)).symm

/-- Canonical texts are equal exactly if the values are, up to the order of members at every
level. The order of an array is part of its text, and alike values share a fingerprint. -/
theorem canonical_eq_iff_alike {v w : Json} (hv : v.AllFinite) (hw : w.AllFinite)
    (honce : w.NamedOnce) :
    (v.canonical = w.canonical ↔ v.Alike w) ∧
      (v.Alike w → Fingerprint.of v = Fingerprint.of w) ∧
      ∀ items others, v = array items → w = array others →
        (v.canonical = w.canonical ↔ items.map canonical = others.map canonical) := by
  have hiff := (canonical_eq_iff_sorted hv hw).trans (sorted_eq_iff_alike honce)
  refine ⟨hiff, fun h => congrArg Digest.sha256Hex (hiff.2 h),
    fun items others hitems hothers => ?_⟩
  subst hitems hothers
  exact canonical_array_eq_iff hv hw

/-- A filter with members inside an array, and a number that is not an integer. -/
def shadeFilter : Json :=
  array [object [("shades", array [text "red", null]), ("limit", int 20)], double (.zero true)]

/-- The same filter with its members the other way round. -/
def turnedFilter : Json :=
  array [object [("limit", int 20), ("shades", array [text "red", null])], double (.zero true)]

theorem shadeFilter_alike : shadeFilter.Alike turnedFilter := by
  have hshades : Alike (array [text "red", null]) (array [text "red", null]) :=
    .array rfl (by simpa using ⟨.text "red", .null⟩)
  refine .array rfl ?_
  simp only [List.zip_cons_cons, List.zip_nil_right, List.forall_mem_cons, List.not_mem_nil,
    false_implies, implies_true, and_true]
  refine ⟨.object (.swap _ _ []) rfl ?_, .double _⟩
  simpa using ⟨hshades, .int 20⟩

theorem turnedFilter_namedOnce : turnedFilter.NamedOnce := by
  have hshades : NamedOnce (array [text "red", null]) :=
    .array (by simpa using ⟨.text "red", .null⟩)
  have hmembers : NamedOnce (object [("limit", int 20), ("shades", array [text "red", null])]) :=
    .object (by decide) (by simpa using ⟨.int 20, hshades⟩)
  exact .array (by simpa using ⟨hmembers, .double _⟩)

theorem turned_filter_keeps_its_text :
    shadeFilter.canonical = turnedFilter.canonical ∧
      Fingerprint.of shadeFilter = Fingerprint.of turnedFilter ∧
      (array [int 1, int 2]).canonical ≠ (array [int 2, int 1]).canonical := by
  have hv : shadeFilter.AllFinite := by
    change ∀ x ∈ shadeFilter.doubles, _
    decide
  have hw : turnedFilter.AllFinite := by
    change ∀ x ∈ turnedFilter.doubles, _
    decide
  obtain ⟨hiff, hprint, -⟩ := canonical_eq_iff_alike hv hw turnedFilter_namedOnce
  have hpair (i j : ℤ) : (array [int i, int j]).AllFinite := fun x hx => by cases hx
  have hpairs := (canonical_eq_iff_alike (hpair 1 2) (hpair 2 1)
    (.array (by simpa using ⟨.int 2, .int 1⟩))).2.2 _ _ rfl rfl
  refine ⟨hiff.2 shadeFilter_alike, hprint shadeFilter_alike, fun h => ?_⟩
  exact absurd (hpairs.1 h) (by decide)

end FilmCatalog.Json
