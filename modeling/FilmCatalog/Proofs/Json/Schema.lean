import FilmCatalog.Json.Decoder
import Mathlib

/-!
# What a strict decoder reads

A schema says which documents stand for a value of some kind, and for which
one. A record is an object in which each of its names stands exactly once,
wherever and among whatever other names, or an array of its parts in their
order; an integer may stand for a double. A document in which, at whatever
depth, a name of a record is missing or comes again stands for nothing.

A decoder that reads by a schema gives a value for the documents that stand
for one, and gives the value that they stand for.

Key definitions: `Json.Schema`, `Json.Schema.Stands`, `Json.Schema.Breaks`,
`Json.Schema.value?`, `Json.Decoder.Reads`.
Key theorems: `Json.Schema.Breaks.not_stands`, `Json.Schema.value?_eq_some_iff`,
`Json.Decoder.reads_list`, `Json.Decoder.reads_record`.
-/

namespace FilmCatalog.Json

/-! ## Lists side by side -/

/-- A list is read item by item. -/
theorem mapM_eq_some_iff {α β : Type} {f : α → Option β} {as : List α} {bs : List β} :
    as.mapM f = some bs ↔ List.Forall₂ (fun a b => f a = some b) as bs := by
  induction as generalizing bs with
  | nil => cases bs <;> simp
  | cons a as ih =>
    have hcons : (a :: as).mapM f = some bs ↔
        ∃ b, f a = some b ∧ ∃ rest, as.mapM f = some rest ∧ b :: rest = bs := by
      rw [List.mapM_cons]
      simp [Option.bind_eq_some_iff]
    rw [hcons, List.forall₂_cons_left_iff]
    constructor
    · rintro ⟨b, hb, rest, hrest, rfl⟩
      exact ⟨b, rest, hb, ih.1 hrest, rfl⟩
    · rintro ⟨b, rest, hb, hrest, rfl⟩
      exact ⟨b, hb, rest, ih.2 hrest, rfl⟩

/-- Lists that are related item by item are the sides of one list. -/
theorem forall₂_iff_pairs {α β : Type} {R : α → β → Prop} {as : List α} {bs : List β} :
    List.Forall₂ R as bs ↔
      ∃ xs : List (α × β), xs.map Prod.fst = as ∧ xs.map Prod.snd = bs ∧ ∀ x ∈ xs, R x.1 x.2 := by
  constructor
  · intro h
    refine ⟨as.zip bs, List.map_fst_zip h.length_eq.le, List.map_snd_zip h.length_eq.ge, ?_⟩
    exact fun x hx => List.forall₂_zip h hx
  · rintro ⟨xs, rfl, rfl, h⟩
    rw [List.forall₂_map_left_iff, List.forall₂_map_right_iff, List.forall₂_same]
    exact h

/-! ## Schemas -/

/-- The kinds of values that are read strictly. -/
inductive Schema where
  | text
  | bool
  | int (range : IntRange)
  | double
  | list (item : Schema)
  /-- Named parts in an order. -/
  | record (parts : List (String × Schema))

namespace Schema

/-- A part of a record: its name and schema, a document and what it stands for. -/
structure Part where
  name : String
  schema : Schema
  document : Document
  value : Json

/-- A part as the schema of the record has it. -/
def Part.field (p : Part) : String × Schema := (p.name, p.schema)

/-- A part as the value of the record has it. -/
def Part.member (p : Part) : String × Json := (p.name, p.value)

/-- Whether a document stands for a value. -/
inductive Stands : Schema → Document → Json → Prop where
  | text (s : String) : Stands text (.text (some s)) (.text s)
  | bool (b : Bool) : Stands bool (.bool b) (.bool b)
  | int {range : IntRange} {n : Numeral} {i : ℤ} (h : n.integer? = some i)
      (hi : range.holds i = true) : Stands (int range) (.numeral n) (.int i)
  /-- An integer may stand for a double. -/
  | double {n : Numeral} {x : Double} (h : n.double? = some x) :
      Stands double (.numeral n) (.double x)
  | list {item : Schema} {xs : List (Document × Json)} (h : ∀ x ∈ xs, Stands item x.1 x.2) :
      Stands (list item) (.array (xs.map Prod.fst)) (.array (xs.map Prod.snd))
  /-- All names are texts, and each name of the record stands once. -/
  | object {parts : List Part} {members : List (Option String × Document)}
      (hnames : ∀ m ∈ members, m.1.isSome = true)
      (hone : ∀ p ∈ parts, Decoder.named p.name members = [p.document])
      (h : ∀ p ∈ parts, Stands p.schema p.document p.value) :
      Stands (record (parts.map Part.field)) (.object members) (.object (parts.map Part.member))
  /-- Each part stands in its place. -/
  | array {parts : List Part} (h : ∀ p ∈ parts, Stands p.schema p.document p.value) :
      Stands (record (parts.map Part.field)) (.array (parts.map Part.document))
        (.object (parts.map Part.member))

/-- Whether, at some depth, a part of a record is missing or comes again. -/
inductive Breaks : Schema → Document → Prop where
  | name {parts : List (String × Schema)} {members : List (Option String × Document)}
      {p : String × Schema} (hp : p ∈ parts) (h : (Decoder.named p.1 members).length ≠ 1) :
      Breaks (record parts) (.object members)
  | length {parts : List (String × Schema)} {items : List Document}
      (h : items.length ≠ parts.length) : Breaks (record parts) (.array items)
  | member {parts : List (String × Schema)} {members : List (Option String × Document)}
      {p : String × Schema} {d : Document} (hp : p ∈ parts) (hd : d ∈ Decoder.named p.1 members)
      (h : Breaks p.2 d) : Breaks (record parts) (.object members)
  | part {parts : List (String × Schema)} {items : List Document}
      {x : (String × Schema) × Document} (hx : x ∈ parts.zip items) (h : Breaks x.1.2 x.2) :
      Breaks (record parts) (.array items)
  | item {item : Schema} {items : List Document} {d : Document} (hd : d ∈ items)
      (h : Breaks item d) : Breaks (list item) (.array items)

/-! ## Parts of what stands for a value -/

theorem Stands.item {item : Schema} {items : List Document} {v : Json}
    (h : (Schema.list item).Stands (.array items) v) {d : Document} (hd : d ∈ items) :
    ∃ w, item.Stands d w := by
  cases h with
  | list h =>
    obtain ⟨x, hx, rfl⟩ := List.mem_map.1 hd
    exact ⟨x.2, h x hx⟩

theorem Stands.named {parts : List (String × Schema)} {members : List (Option String × Document)}
    {v : Json} (h : (record parts).Stands (.object members) v) {p : String × Schema}
    (hp : p ∈ parts) : ∃ d w, Decoder.named p.1 members = [d] ∧ p.2.Stands d w := by
  cases h with
  | object hnames hone h =>
    obtain ⟨q, hq, rfl⟩ := List.mem_map.1 hp
    exact ⟨q.document, q.value, hone q hq, h q hq⟩

theorem Stands.placed {parts : List (String × Schema)} {items : List Document} {v : Json}
    (h : (record parts).Stands (.array items) v) :
    items.length = parts.length ∧ ∀ x ∈ parts.zip items, ∃ w, x.1.2.Stands x.2 w := by
  cases h with
  | @array parts h =>
    refine ⟨by rw [List.length_map, List.length_map], fun x hx => ?_⟩
    rw [List.zip_map'] at hx
    obtain ⟨p, hp, rfl⟩ := List.mem_map.1 hx
    exact ⟨p.value, h p hp⟩

/-- What breaks a schema anywhere stands for nothing. -/
theorem Breaks.not_stands {s : Schema} {d : Document} (h : s.Breaks d) (v : Json) :
    ¬s.Stands d v := by
  induction h generalizing v with
  | name hp h =>
    intro hv
    obtain ⟨d, _, hd, -⟩ := hv.named hp
    exact h (by rw [hd, List.length_singleton])
  | length h => exact fun hv => h hv.placed.1
  | member hp hd _ ih =>
    intro hv
    obtain ⟨e, w, he, hw⟩ := hv.named hp
    rw [he, List.mem_singleton] at hd
    exact ih w (hd ▸ hw)
  | part hx _ ih =>
    intro hv
    obtain ⟨w, hw⟩ := hv.placed.2 _ hx
    exact ih w hw
  | item hd _ ih =>
    intro hv
    obtain ⟨w, hw⟩ := hv.item hd
    exact ih w hw

/-! ## Reading by a schema -/

mutual

/-- The value that a document stands for. -/
def value? : Schema → Document → Option Json
  | text, d => (Decoder.text d).map .text
  | bool, d => (Decoder.bool d).map .bool
  | int range, d => (Decoder.intIn range d).map .int
  | double, d => (Decoder.double d).map .double
  | list item, d => (Decoder.list item.value? d).map .array
  | record parts, d =>
    (Decoder.fields (parts.map Prod.fst) d).bind fun found => (values? parts found).map .object

/-- The members that documents stand for. -/
def values? : List (String × Schema) → List Document → Option (List (String × Json))
  | (name, s) :: parts, d :: found =>
    (s.value? d).bind fun v => (values? parts found).map ((name, v) :: ·)
  | [], [] => some []
  | _, _ => none

end

/-- What holds of a schema because it holds of its parts. -/
@[elab_as_elim]
theorem induction {P : Schema → Prop} (s : Schema) (text : P .text) (bool : P .bool)
    (int : ∀ range, P (.int range)) (double : P .double) (list : ∀ item, P item → P (.list item))
    (record : ∀ parts, (∀ p ∈ parts, P p.2) → P (.record parts)) : P s := by
  cases s with
  | text => exact text
  | bool => exact bool
  | int range => exact int range
  | double => exact double
  | list item => exact list item (induction item text bool int double list record)
  | record parts =>
    exact record parts fun p hp => induction p.2 text bool int double list record
termination_by sizeOf s
decreasing_by
  · simp only [Schema.list.sizeOf_spec]
    omega
  · have hlt := List.sizeOf_lt_of_mem hp
    obtain ⟨name, w⟩ := p
    simp only [Prod.mk.sizeOf_spec, Schema.record.sizeOf_spec] at hlt ⊢
    omega

/-- The members that documents stand for are those of parts that do. -/
theorem values?_eq_some_iff {parts : List (String × Schema)}
    (ih : ∀ p ∈ parts, ∀ d v, p.2.value? d = some v ↔ p.2.Stands d v) {found : List Document}
    {ms : List (String × Json)} :
    values? parts found = some ms ↔ ∃ ps : List Part, ps.map Part.field = parts ∧
      ps.map Part.document = found ∧ ps.map Part.member = ms ∧
      ∀ p ∈ ps, p.schema.Stands p.document p.value := by
  induction parts generalizing found ms with
  | nil =>
    constructor
    · intro h
      cases found with
      | nil => exact ⟨[], rfl, rfl, Option.some.inj h, by simp⟩
      | cons d found => cases h
    · rintro ⟨ps, hparts, rfl, rfl, -⟩
      obtain rfl := List.map_eq_nil_iff.1 hparts
      rfl
  | cons part parts ihparts =>
    obtain ⟨name, s⟩ := part
    have ihrest : ∀ p ∈ parts, ∀ d v, p.2.value? d = some v ↔ p.2.Stands d v :=
      fun p hp => ih p (List.mem_cons_of_mem _ hp)
    constructor
    · intro h
      cases found with
      | nil => cases h
      | cons d found =>
        obtain ⟨v, hv, hms⟩ := Option.bind_eq_some_iff.1 h
        obtain ⟨rest, hrest, rfl⟩ := Option.map_eq_some_iff.1 hms
        obtain ⟨ps, rfl, rfl, rfl, hps⟩ := (ihparts ihrest).1 hrest
        refine ⟨⟨name, s, d, v⟩ :: ps, rfl, rfl, rfl, List.forall_mem_cons.2 ⟨?_, hps⟩⟩
        exact (ih _ List.mem_cons_self d v).1 hv
    · rintro ⟨ps, hparts, rfl, rfl, hps⟩
      obtain ⟨p, ps, rfl, hp, rfl⟩ := List.map_eq_cons_iff.1 hparts
      obtain ⟨rfl, rfl⟩ := Prod.mk.inj hp
      obtain ⟨hv, hps⟩ := List.forall_mem_cons.1 hps
      have hvalue := (ih _ List.mem_cons_self p.document p.value).2 hv
      have hvalues := (ihparts ihrest).2 ⟨ps, rfl, rfl, rfl, hps⟩
      rw [List.map_cons, List.map_cons, values?, hvalue, Option.bind_some, hvalues]
      rfl

end Schema

namespace Decoder

variable {names : List String} {members : List (Option String × Document)}
  {items found : List Document}

/-- The parts of an object are the only ones of their names. -/
theorem fields_object_eq_some :
    fields names (.object members) = some found ↔ (∀ m ∈ members, m.1.isSome = true) ∧
      List.Forall₂ (fun name d => named name members = [d]) names found := by
  rw [fields, ← List.all_eq_true]
  split_ifs with hall
  · rw [mapM_eq_some_iff, and_iff_right hall]
    constructor
    · refine fun h => h.imp fun name d hd => ?_
      split at hd
      · rename_i e he
        rw [he, Option.some.inj hd]
      · cases hd
    · refine fun h => h.imp fun name d hd => ?_
      rw [hd]
  · simp only [hall, false_and, Bool.false_eq_true]

theorem fields_array_eq_some :
    fields names (.array items) = some found ↔ items.length = names.length ∧ items = found := by
  rw [fields, Option.ite_none_right_eq_some, Option.some.injEq]

/-- As many parts are found as there are names. -/
theorem length_of_fields {d : Document} (h : fields names d = some found) :
    found.length = names.length := by
  cases d with
  | object members => exact (fields_object_eq_some.1 h).2.length_eq.symm
  | array items =>
    obtain ⟨hlength, rfl⟩ := fields_array_eq_some.1 h
    exact hlength
  | _ => cases h

theorem text_eq_some_iff {d : Document} {s : String} : text d = some s ↔ d = .text (some s) := by
  cases d <;> simp [text]

theorem bool_eq_some_iff {d : Document} {b : Bool} : bool d = some b ↔ d = .bool b := by
  cases d <;> simp [bool]

theorem intIn_eq_some_iff {range : IntRange} {d : Document} {i : ℤ} :
    intIn range d = some i ↔
      ∃ n, d = .numeral n ∧ n.integer? = some i ∧ range.holds i = true := by
  cases d <;> simp [intIn, IntRange.check?, Option.bind_eq_some_iff]

theorem double_eq_some_iff {d : Document} {x : Double} :
    double d = some x ↔ ∃ n, d = .numeral n ∧ n.double? = some x := by
  cases d <;> simp [double]

theorem list_eq_some_iff {α : Type} {decode : Decoder α} {d : Document} {as : List α} :
    list decode d = some as ↔
      ∃ items, d = .array items ∧ List.Forall₂ (fun e a => decode e = some a) items as := by
  cases d <;> simp [list, mapM_eq_some_iff]

end Decoder

namespace Schema

/-- A document stands for a record by the parts that are found in it. -/
theorem stands_record_iff {parts : List (String × Schema)} {d : Document} {v : Json} :
    (record parts).Stands d v ↔ ∃ ps : List Part, ps.map Part.field = parts ∧
      Decoder.fields (parts.map Prod.fst) d = some (ps.map Part.document) ∧
      .object (ps.map Part.member) = v ∧ ∀ p ∈ ps, p.schema.Stands p.document p.value := by
  have hfound : ∀ (ps : List Part) members,
      List.Forall₂ (fun name d => Decoder.named name members = [d])
        ((ps.map Part.field).map Prod.fst) (ps.map Part.document) ↔
      ∀ p ∈ ps, Decoder.named p.name members = [p.document] := by
    intro ps members
    rw [List.map_map, List.forall₂_map_left_iff, List.forall₂_map_right_iff, List.forall₂_same]
    rfl
  constructor
  · intro h
    cases h with
    | @object ps members hnames hone h =>
      exact ⟨ps, rfl, Decoder.fields_object_eq_some.2 ⟨hnames, (hfound ps members).2 hone⟩, rfl, h⟩
    | @array ps h => exact ⟨ps, rfl, Decoder.fields_array_eq_some.2 ⟨by simp, rfl⟩, rfl, h⟩
  · rintro ⟨ps, rfl, hfields, rfl, h⟩
    cases d with
    | object members =>
      obtain ⟨hnames, hone⟩ := Decoder.fields_object_eq_some.1 hfields
      exact .object hnames ((hfound ps members).1 hone) h
    | array items =>
      obtain ⟨-, rfl⟩ := Decoder.fields_array_eq_some.1 hfields
      exact .array h
    | _ => cases hfields

/-- A schema gives for a document the value that it stands for. -/
theorem value?_eq_some_iff {s : Schema} {d : Document} {v : Json} :
    s.value? d = some v ↔ s.Stands d v := by
  induction s using induction generalizing d v with
  | text =>
    rw [value?, Option.map_eq_some_iff]
    constructor
    · rintro ⟨t, h, rfl⟩
      exact Decoder.text_eq_some_iff.1 h ▸ .text t
    · rintro ⟨⟩
      exact ⟨_, rfl, rfl⟩
  | bool =>
    rw [value?, Option.map_eq_some_iff]
    constructor
    · rintro ⟨b, h, rfl⟩
      exact Decoder.bool_eq_some_iff.1 h ▸ .bool b
    · rintro ⟨⟩
      exact ⟨_, rfl, rfl⟩
  | int range =>
    rw [value?, Option.map_eq_some_iff]
    constructor
    · rintro ⟨i, h, rfl⟩
      obtain ⟨n, rfl, hi, hrange⟩ := Decoder.intIn_eq_some_iff.1 h
      exact .int hi hrange
    · intro h
      cases h with
      | int hi hrange => exact ⟨_, Decoder.intIn_eq_some_iff.2 ⟨_, rfl, hi, hrange⟩, rfl⟩
  | double =>
    rw [value?, Option.map_eq_some_iff]
    constructor
    · rintro ⟨x, h, rfl⟩
      obtain ⟨n, rfl, hx⟩ := Decoder.double_eq_some_iff.1 h
      exact .double hx
    · intro h
      cases h with
      | double hx => exact ⟨_, Decoder.double_eq_some_iff.2 ⟨_, rfl, hx⟩, rfl⟩
  | list item ih =>
    rw [value?, Option.map_eq_some_iff]
    constructor
    · rintro ⟨vs, h, rfl⟩
      obtain ⟨items, rfl, hitems⟩ := Decoder.list_eq_some_iff.1 h
      obtain ⟨xs, rfl, rfl, hxs⟩ := forall₂_iff_pairs.1 hitems
      exact .list fun x hx => ih.1 (hxs x hx)
    · intro h
      cases h with
      | @list _ xs h =>
        refine ⟨_, Decoder.list_eq_some_iff.2 ⟨_, rfl, forall₂_iff_pairs.2 ⟨xs, rfl, rfl, ?_⟩⟩, rfl⟩
        exact fun x hx => ih.2 (h x hx)
  | record parts ih =>
    have ihparts : ∀ p ∈ parts, ∀ d v, p.2.value? d = some v ↔ p.2.Stands d v :=
      fun p hp _ _ => ih p hp
    rw [value?, Option.bind_eq_some_iff, stands_record_iff]
    constructor
    · rintro ⟨found, hfields, h⟩
      obtain ⟨ms, hms, rfl⟩ := Option.map_eq_some_iff.1 h
      obtain ⟨ps, rfl, rfl, rfl, hps⟩ := (values?_eq_some_iff ihparts).1 hms
      exact ⟨ps, rfl, hfields, rfl, hps⟩
    · rintro ⟨ps, hparts, hfields, rfl, hps⟩
      have hms := (values?_eq_some_iff ihparts).2 ⟨ps, hparts, rfl, rfl, hps⟩
      exact ⟨_, hfields, by rw [hms]; rfl⟩

end Schema

namespace Decoder

variable {α : Type}

/-- Whether a decoder reads by a schema: what it gives is, written again, what the
document stands for. -/
def Reads (decode : Decoder α) (s : Schema) (toJson : α → Json) : Prop :=
  ∀ d, (decode d).map toJson = s.value? d

theorem reads_text : text.Reads .text Json.text := fun _ => rfl

theorem reads_bool : bool.Reads .bool Json.bool := fun _ => rfl

theorem reads_intIn (range : IntRange) : (intIn range).Reads (.int range) Json.int := fun _ => rfl

theorem reads_double : double.Reads .double Json.double := fun _ => rfl

/-- A list is read by a schema if its items are. -/
theorem reads_list {decode : Decoder α} {s : Schema} {toJson : α → Json}
    (h : decode.Reads s toJson) : (list decode).Reads (.list s) (Json.ofList toJson) := by
  have hmapM : ∀ items : List Document,
      (items.mapM decode).map (List.map toJson) = items.mapM s.value? := by
    intro items
    induction items with
    | nil => rfl
    | cons d items ih =>
      rw [List.mapM_cons, List.mapM_cons, ← ih, ← h d]
      cases decode d <;> cases items.mapM decode <;> rfl
  intro d
  cases d with
  | array items =>
    rw [Schema.value?, list, list, ← hmapM, Option.map_map]
    rfl
  | _ => rfl

/-- A record is read by a schema if its parts are. -/
theorem reads_record {decode : Decoder α} {parts : List (String × Schema)} {toJson : α → Json}
    {build : List Document → Option α}
    (hdecode : ∀ d, decode d = (fields (parts.map Prod.fst) d).bind build)
    (h : ∀ found, List.Forall₂ (fun _ _ => True) parts found →
      (build found).map toJson = (Schema.values? parts found).map .object) :
    decode.Reads (.record parts) toJson := by
  intro d
  rw [hdecode, Schema.value?, Option.map_bind]
  cases hfields : fields (parts.map Prod.fst) d with
  | none => rfl
  | some found =>
    have hlength := length_of_fields hfields
    rw [List.length_map] at hlength
    exact h found (List.forall₂_iff_zip.2 ⟨hlength.symm, fun _ => trivial⟩)

/-- A part that is read goes to the members in front of the rest. -/
theorem reads_part {β : Type} {decode : Decoder α} {s : Schema} {write : α → Json}
    (h : decode.Reads s write) {name : String} {parts : List (String × Schema)} {d : Document}
    {found : List Document} {next : α → Option β} {toJson : β → Json}
    {whole : List (String × Json) → Json}
    (hnext : ∀ a, (next a).map toJson =
      (Schema.values? parts found).map fun ms => whole ((name, write a) :: ms)) :
    ((decode d).bind next).map toJson =
      (Schema.values? ((name, s) :: parts) (d :: found)).map whole := by
  rw [Schema.values?, ← h d]
  cases decode d with
  | none => rfl
  | some a =>
    rw [Option.map_some, Option.bind_some, Option.bind_some, hnext a, Option.map_map]
    rfl

end Decoder
end FilmCatalog.Json
