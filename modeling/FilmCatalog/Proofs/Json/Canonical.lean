import FilmCatalog.Proofs.Json.DoubleText

/-!
# Canonical texts

A value whose doubles are finite is determined by its compact text, because that
text is read as one document and the document keeps everything of the value. So a
canonical text determines the value with the members of every object in order,
and of objects with the same names it determines every member. A way to write
things of one kind that loses nothing (`Json.Tells`) stays one when it is used
inside options and arrays.

Key definitions: `Json.AllFinite`, `Json.Tells`.
Key theorems: `Json.ext_of_document`, `Json.sorted_eq_of_canonical`,
`Json.values_eq_of_sorted`.
-/

namespace FilmCatalog

theorem Numeral.ofInt_injective {m n : ℤ} (h : Numeral.ofInt m = Numeral.ofInt n) : m = n := by
  have hsign : decide (m < 0) = decide (n < 0) := congrArg Numeral.negative h
  have hdigits : decimalDigits m.natAbs = decimalDigits n.natAbs := congrArg Numeral.whole h
  have habs := congrArg natOfDigits hdigits
  rw [natOfDigits_decimalDigits, natOfDigits_decimalDigits] at habs
  have hiff := decide_eq_decide.1 hsign
  omega

namespace Json

/-- Whether all doubles of a value are finite. -/
def AllFinite (v : Json) : Prop := ∀ x ∈ v.doubles, x.isFinite = true

theorem AllFinite.item {items : List Json} (h : (array items).AllFinite) {v : Json}
    (hv : v ∈ items) : v.AllFinite := fun x hx =>
  h x (by
    rw [doubles, itemDoubles_eq]
    exact List.mem_flatMap.2 ⟨v, hv, hx⟩)

theorem AllFinite.member {members : List (String × Json)} (h : (object members).AllFinite)
    {m : String × Json} (hm : m ∈ members) : m.2.AllFinite := fun x hx =>
  h x (by
    rw [doubles, memberDoubles_eq]
    exact List.mem_flatMap.2 ⟨m, hm, hx⟩)

theorem allFinite_object {members : List (String × Json)} (h : ∀ m ∈ members, m.2.AllFinite) :
    (object members).AllFinite := by
  intro x hx
  rw [doubles, memberDoubles_eq] at hx
  obtain ⟨m, hm, hxm⟩ := List.mem_flatMap.1 hx
  exact h m hm x hxm

theorem allFinite_ofList {α : Type} {write : α → Json} {xs : List α}
    (h : ∀ a ∈ xs, (write a).AllFinite) : (ofList write xs).AllFinite := by
  intro x hx
  rw [ofList, doubles, itemDoubles_eq] at hx
  obtain ⟨v, hv, hxv⟩ := List.mem_flatMap.1 hx
  obtain ⟨a, ha, rfl⟩ := List.mem_map.1 hv
  exact h a ha x hxv

theorem allFinite_ofOption {α : Type} {write : α → Json} {o : Option α}
    (h : ∀ a ∈ o, (write a).AllFinite) : (ofOption write o).AllFinite := by
  cases o with
  | none => exact fun x hx => by cases hx
  | some a => exact h a rfl

theorem allFinite_int (i : ℤ) : (int i).AllFinite := fun x hx => by cases hx

theorem allFinite_bool (b : Bool) : (bool b).AllFinite := fun x hx => by cases hx

theorem allFinite_text (s : String) : (text s).AllFinite := fun x hx => by cases hx

theorem allFinite_double {x : Double} (h : x.isFinite = true) : (double x).AllFinite := by
  intro y hy
  rw [doubles, List.mem_singleton] at hy
  rwa [hy]

/-! ## Documents -/

/-- The document of a finite double is a numeral that no integer has. -/
theorem document_double {x : Double} (h : (double x).AllFinite) :
    ∃ n, (double x).document = .numeral n ∧ x.numeral? = some n ∧ ∀ i, n ≠ Numeral.ofInt i := by
  have hx : x.isFinite = true := h x (by simp [doubles])
  obtain ⟨n, hn, -, -, hmark⟩ := x.exists_numeral
  refine ⟨n, by rw [document, if_pos hx, hn]; rfl, hn, fun i hi => ?_⟩
  rw [hi] at hmark
  simp [Numeral.ofInt] at hmark

theorem ext_of_document_double {x : Double} {w : Json} (hx : (double x).AllFinite)
    (hw : w.AllFinite) (h : (double x).document = w.document) : double x = w := by
  obtain ⟨n, hn, hx, hint⟩ := document_double hx
  rw [hn] at h
  cases w with
  | double y =>
    obtain ⟨k, hk, hy, -⟩ := document_double hw
    rw [hk] at h
    obtain rfl := Document.numeral.inj h
    rw [Double.ext_of_numeral (hx.trans hy.symm)]
  | int i => exact absurd (Document.numeral.inj h) (hint i)
  | null => cases h
  | bool b => cases h
  | text s => cases h
  | array items => cases h
  | object members => cases h

/-- Lists are equal if their images are, under a function that tells their elements apart. -/
theorem eq_of_map_eq {α β : Type} {f : α → β} {xs ys : List α}
    (hf : ∀ x ∈ xs, ∀ y ∈ ys, f x = f y → x = y) (h : xs.map f = ys.map f) : xs = ys := by
  induction xs generalizing ys with
  | nil => exact (List.map_eq_nil_iff.1 h.symm).symm
  | cons x xs ih =>
    cases ys with
    | nil => cases h
    | cons y ys =>
      obtain ⟨hhead, htail⟩ := List.cons.inj h
      rw [hf x List.mem_cons_self y List.mem_cons_self hhead,
        ih (fun a ha b hb => hf a (List.mem_cons_of_mem _ ha) b (List.mem_cons_of_mem _ hb)) htail]

/-- A value with finite doubles is determined by its document. -/
theorem ext_of_document {v w : Json} (hv : v.AllFinite) (hw : w.AllFinite)
    (h : v.document = w.document) : v = w := by
  induction v using Json.induction generalizing w with
  | double x => exact ext_of_document_double hv hw h
  | null =>
    cases w with
    | double y => exact (ext_of_document_double hw hv h.symm).symm
    | null => rfl
    | _ => cases h
  | bool b =>
    cases w with
    | double y => exact (ext_of_document_double hw hv h.symm).symm
    | bool c => rw [Document.bool.inj h]
    | _ => cases h
  | int i =>
    cases w with
    | double y => exact (ext_of_document_double hw hv h.symm).symm
    | int j => rw [Numeral.ofInt_injective (Document.numeral.inj h)]
    | _ => cases h
  | text s =>
    cases w with
    | double y => exact (ext_of_document_double hw hv h.symm).symm
    | text t => rw [Option.some.inj (Document.text.inj h)]
    | _ => cases h
  | array items ih =>
    cases w with
    | double y => exact (ext_of_document_double hw hv h.symm).symm
    | array others =>
      have hitems := Document.array.inj h
      rw [documents_eq, documents_eq] at hitems
      rw [eq_of_map_eq (fun a ha b hb => ih a ha (hv.item ha) (hw.item hb)) hitems]
    | _ => cases h
  | object members ih =>
    cases w with
    | double y => exact (ext_of_document_double hw hv h.symm).symm
    | object others =>
      have hmembers := Document.object.inj h
      rw [memberDocuments_eq, memberDocuments_eq] at hmembers
      rw [eq_of_map_eq (fun a ha b hb hab => ?_) hmembers]
      obtain ⟨hname, hdocument⟩ := Prod.mk.inj hab
      exact Prod.ext (Option.some.inj hname) (ih a ha (hv.member ha) (hw.member hb) hdocument)
    | _ => cases h

/-! ## Members in order -/

theorem sortedItems_eq (items : List Json) : sortedItems items = items.map sorted := by
  induction items with
  | nil => rfl
  | cons v rest ih => rw [sortedItems, ih, List.map_cons]

theorem sortedMembers_eq (members : List (String × Json)) :
    sortedMembers members = members.map fun m => (m.1, m.2.sorted) := by
  induction members with
  | nil => rfl
  | cons m rest ih => rw [sortedMembers, ih, List.map_cons]

theorem byName_perm (members : List (String × Json)) : (byName members).Perm members :=
  List.mergeSort_perm _ _

/-- Sorting the members leaves the doubles of a value. -/
theorem AllFinite.sorted {v : Json} (h : v.AllFinite) : v.sorted.AllFinite := by
  induction v using Json.induction with
  | array items ih =>
    intro x hx
    rw [Json.sorted, sortedItems_eq, doubles, itemDoubles_eq] at hx
    obtain ⟨w, hw, hxw⟩ := List.mem_flatMap.1 hx
    obtain ⟨v, hv, rfl⟩ := List.mem_map.1 hw
    exact ih v hv (h.item hv) x hxw
  | object members ih =>
    intro x hx
    rw [Json.sorted, sortedMembers_eq, doubles, memberDoubles_eq] at hx
    obtain ⟨w, hw, hxw⟩ := List.mem_flatMap.1 hx
    obtain ⟨m, hm, rfl⟩ := List.mem_map.1 ((byName_perm _).mem_iff.1 hw)
    exact ih m hm (h.member hm) x hxw
  | null => exact h
  | bool b => exact h
  | int i => exact h
  | double x => exact h
  | text s => exact h

/-- A canonical text determines the value with its members in order. -/
theorem sorted_eq_of_canonical {v w : Json} (hv : v.AllFinite) (hw : w.AllFinite)
    (h : v.canonical = w.canonical) : v.sorted = w.sorted := by
  refine ext_of_document hv.sorted hw.sorted (Option.some.inj ?_)
  calc some v.sorted.document = Document.ofText? v.canonical := (ofText?_compact (legible _)).symm
    _ = Document.ofText? w.canonical := by rw [h]
    _ = some w.sorted.document := ofText?_compact (legible _)

/-- Lists of members with the same names, each once, are equal if one is a
rearrangement of the other. -/
theorem eq_of_perm {ms ns : List (String × Json)} (hnames : ms.map Prod.fst = ns.map Prod.fst)
    (hnodup : (ms.map Prod.fst).Nodup) (h : ms.Perm ns) : ms = ns := by
  induction ms generalizing ns with
  | nil => exact h.nil_eq
  | cons m ms ih =>
    cases ns with
    | nil => cases hnames
    | cons n ns =>
      obtain ⟨hname, hrest⟩ := List.cons.inj hnames
      obtain ⟨hnot, hnodup⟩ := List.nodup_cons.1 hnodup
      have hmem : m = n ∨ m ∈ ns := List.mem_cons.1 (h.subset List.mem_cons_self)
      have heq : m = n := by
        refine hmem.resolve_right fun hm => hnot ?_
        rw [hrest]
        exact List.mem_map_of_mem hm
      subst heq
      rw [ih hrest hnodup h.cons_inv]

/-- Objects with the same names, each once, agree in every member if they agree with
their members in order. -/
theorem values_eq_of_sorted {ms ns : List (String × Json)}
    (hnames : ms.map Prod.fst = ns.map Prod.fst) (hnodup : (ms.map Prod.fst).Nodup)
    (h : (object ms).sorted = (object ns).sorted) :
    (ms.map fun m => m.2.sorted) = ns.map fun m => m.2.sorted := by
  have hbyName : byName (sortedMembers ms) = byName (sortedMembers ns) := object.inj h
  have hperm : (sortedMembers ms).Perm (sortedMembers ns) :=
    (byName_perm _).symm.trans (hbyName ▸ byName_perm _)
  rw [sortedMembers_eq, sortedMembers_eq] at hperm
  have hfst (ls : List (String × Json)) :
      (ls.map fun m => (m.1, m.2.sorted)).map Prod.fst = ls.map Prod.fst := by
    rw [List.map_map]
    rfl
  have heq := eq_of_perm (by rw [hfst, hfst, hnames]) (by rwa [hfst]) hperm
  have hvalues := congrArg (List.map Prod.snd) heq
  rwa [List.map_map, List.map_map] at hvalues

/-! ## Ways to write things -/

/-- Whether things of a kind are told apart by how they are written, whatever the order
of members. -/
def Tells {α : Type} (write : α → Json) : Prop :=
  ∀ ⦃a b⦄, (write a).sorted = (write b).sorted → a = b

theorem tells_int : Tells int := fun _ _ => int.inj

theorem tells_bool : Tells bool := fun _ _ => bool.inj

theorem tells_text : Tells text := fun _ _ => text.inj

theorem tells_double : Tells double := fun _ _ => double.inj

theorem Tells.ofOption {α : Type} {write : α → Json} (h : Tells write)
    (hnull : ∀ a, (write a).sorted ≠ .null) : Tells (ofOption write) := by
  intro a b hab
  cases a with
  | none =>
    cases b with
    | none => rfl
    | some b => exact absurd hab.symm (hnull b)
  | some a =>
    cases b with
    | none => exact absurd hab (hnull a)
    | some b => rw [h hab]

theorem Tells.ofList {α : Type} {write : α → Json} (h : Tells write) : Tells (ofList write) := by
  intro xs ys hxs
  have hitems := array.inj hxs
  rw [sortedItems_eq, sortedItems_eq, List.map_map, List.map_map] at hitems
  exact eq_of_map_eq (fun a _ b _ => @h a b) hitems

end Json
end FilmCatalog
