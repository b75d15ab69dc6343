import FilmCatalog.Proofs.Json.Numeral
import FilmCatalog.Proofs.Text.Utf8

/-!
# Values read back from their text

The text of a value is read as one document, which is part by part what the
value is, provided that the texts of its finite doubles are numerals.

Key definitions: `Json.document`, `Json.doubles`, `Json.Legible`.
Key theorems: `Json.Document.readText_quoted`, `Json.read_compact`, `Json.ofBytes?_compact`,
`Double.ReadsBack.numeral`.
-/

namespace FilmCatalog.Json

/-- What holds of a value because it holds of its parts. -/
@[elab_as_elim]
theorem induction {P : Json → Prop} (v : Json) (null : P .null) (bool : ∀ b, P (.bool b))
    (int : ∀ n, P (.int n)) (double : ∀ x, P (.double x)) (text : ∀ s, P (.text s))
    (array : ∀ items, (∀ v ∈ items, P v) → P (.array items))
    (object : ∀ members, (∀ m ∈ members, P m.2) → P (.object members)) : P v := by
  cases v with
  | null => exact null
  | bool b => exact bool b
  | int n => exact int n
  | double x => exact double x
  | text s => exact text s
  | array items =>
    exact array items fun v hv => induction v null bool int double text array object
  | object members =>
    exact object members fun m hm => induction m.2 null bool int double text array object
termination_by sizeOf v
decreasing_by
  · have hlt := List.sizeOf_lt_of_mem hv
    simp only [Json.array.sizeOf_spec]
    omega
  · have hlt := List.sizeOf_lt_of_mem hm
    obtain ⟨name, w⟩ := m
    simp only [Prod.mk.sizeOf_spec, Json.object.sizeOf_spec] at hlt ⊢
    omega

/-! ## Documents of values -/

mutual

/-- The document that the text of a value is. -/
def document : Json → Document
  | .null => .null
  | .bool b => .bool b
  | .int n => .numeral (.ofInt n)
  | .double x => if x.isFinite then x.numeral?.elim .null .numeral else .null
  | .text s => .text (some s)
  | .array items => .array (documents items)
  | .object members => .object (memberDocuments members)

/-- The documents of items. -/
def documents : List Json → List Document
  | [] => []
  | v :: rest => document v :: documents rest

/-- The documents of members, under their names. -/
def memberDocuments : List (String × Json) → List (Option String × Document)
  | [] => []
  | (name, v) :: rest => (some name, document v) :: memberDocuments rest

end

mutual

/-- The doubles in a value. -/
def doubles : Json → List Double
  | .double x => [x]
  | .array items => itemDoubles items
  | .object members => memberDoubles members
  | _ => []

/-- The doubles in items. -/
def itemDoubles : List Json → List Double
  | [] => []
  | v :: rest => doubles v ++ itemDoubles rest

/-- The doubles in members. -/
def memberDoubles : List (String × Json) → List Double
  | [] => []
  | (_, v) :: rest => doubles v ++ memberDoubles rest

end

theorem documents_eq (items : List Json) : documents items = items.map document := by
  induction items with
  | nil => rfl
  | cons v rest ih => rw [documents, ih, List.map_cons]

theorem memberDocuments_eq (members : List (String × Json)) :
    memberDocuments members = members.map fun m => (some m.1, m.2.document) := by
  induction members with
  | nil => rfl
  | cons m rest ih => rw [memberDocuments, ih, List.map_cons]

theorem itemDoubles_eq (items : List Json) : itemDoubles items = items.flatMap doubles := by
  induction items with
  | nil => rfl
  | cons v rest ih => rw [itemDoubles, ih, List.flatMap_cons]

theorem memberDoubles_eq (members : List (String × Json)) :
    memberDoubles members = members.flatMap fun m => m.2.doubles := by
  induction members with
  | nil => rfl
  | cons m rest ih => rw [memberDoubles, ih, List.flatMap_cons]

/-- Whether the finite doubles of a value are written as numerals. -/
def Legible (v : Json) : Prop := ∀ x ∈ v.doubles, x.isFinite = true → x.numeral?.isSome = true

namespace Document

/-! ## Numerals -/

/-- Whether no character of a numeral comes first. -/
def Ends (rest : List Letter) : Prop := ∀ c, rest.head? = some (some c) → isNumeralChar c = false

theorem spanNumeral_append {cs : List Char} (h : ∀ c ∈ cs, isNumeralChar c = true)
    {rest : List Letter} (hr : Ends rest) : spanNumeral (cs.map some ++ rest) = (cs, rest) := by
  induction cs with
  | nil =>
    rcases rest with _ | ⟨_ | c, rest⟩
    · rfl
    · rfl
    · have hc : isNumeralChar c = false := hr c rfl
      simp [spanNumeral, hc]
  | cons c cs ih =>
    have hc : isNumeralChar c = true := h c List.mem_cons_self
    rw [List.map_cons, List.cons_append, spanNumeral, if_pos hc,
      ih fun d hd => h d (List.mem_cons_of_mem _ hd)]

theorem skipSpace_cons {c : Char} {rest : List Letter} (h : isSpace (some c) = false) :
    skipSpace (some c :: rest) = some c :: rest := by
  rw [skipSpace, List.dropWhile_cons_of_neg]
  simp [h]

theorem isSpace_of_isNumeralChar {c : Char} (h : isNumeralChar c = true) :
    isSpace (some c) = false := by
  have hne : ∀ d : Char, isNumeralChar d = false → c ≠ d := by
    rintro d hd rfl
    rw [h] at hd
    cases hd
  simp [isSpace, hne ' ' rfl, hne '\n' rfl, hne '\r' rfl, hne '\t' rfl]

/-- A text of characters of numerals is read as a numeral. -/
theorem read_numeral {fuel : ℕ} {c : Char} {cs : List Char}
    (h : ∀ d ∈ c :: cs, isNumeralChar d = true)
    {rest : List Letter} (hr : Ends rest) :
    read (fuel + 1) ((c :: cs).map some ++ rest) =
      (numeralOfChars? (c :: cs)).map fun n => (.numeral n, rest) := by
  have hc : isNumeralChar c = true := h c List.mem_cons_self
  have hne : ∀ d : Char, isNumeralChar d = false → c ≠ d := by
    rintro d hd rfl
    rw [hc] at hd
    cases hd
  have hspan := spanNumeral_append h hr
  rw [List.map_cons, List.cons_append] at hspan ⊢
  rw [read, skipSpace_cons (isSpace_of_isNumeralChar hc)]
  -- no part but a numeral begins so
  have hno : ∀ (d : Char) (rest' : List Letter), isNumeralChar d = false →
      some c :: (cs.map some ++ rest) ≠ some d :: rest' := fun d _ hd heq =>
    hne d hd (Option.some.inj (List.cons.inj heq).1)
  split
  · exact absurd (by assumption) (hno '[' _ rfl)
  · exact absurd (by assumption) (hno '\x7b' _ rfl)
  · exact absurd (by assumption) (hno '"' _ rfl)
  · exact absurd (by assumption) (hno 'n' _ rfl)
  · exact absurd (by assumption) (hno 't' _ rfl)
  · exact absurd (by assumption) (hno 'f' _ rfl)
  · rw [readNumeral, hspan]
    cases hread : numeralOfChars? (c :: cs) <;> simp [hread]

/-! ## Quoted texts -/

theorem hexValue?_hexDigit : ∀ n < 16, hexValue? (Text.hexDigit n) = some n := by decide

/-- A letter after a backslash is read as the character that it stands for. -/
theorem readUnits_short {c d : Char} (hd : d ≠ 'u') (h : shortEscape? d = some c)
    (rest : List Letter) :
    readUnits (some '\\' :: some d :: rest) =
      (readUnits rest).map fun r => (.char c :: r.1, r.2) := by
  rw [readUnits]
  · simp only [h, Option.bind_eq_bind, Option.bind_some]
    cases readUnits rest <;> rfl
  · exact fun _ _ _ _ _ _ heq => hd heq

/-- A number after `\u` is read as the number. -/
theorem readUnits_number {a b : ℕ} (ha : a < 16) (hb : b < 16) (rest : List Letter) :
    readUnits (some '\\' :: some 'u' :: some '0' :: some '0' :: some (Text.hexDigit a) ::
        some (Text.hexDigit b) :: rest) =
      (readUnits rest).map fun r => (.unit (a * 16 + b) :: r.1, r.2) := by
  have hunit : hexUnit? '0' '0' (Text.hexDigit a) (Text.hexDigit b) = some (a * 16 + b) := by
    have hzero : hexValue? '0' = some 0 := rfl
    simp [hexUnit?, hzero, hexValue?_hexDigit a ha, hexValue?_hexDigit b hb]
  rw [readUnits]
  simp only [hunit, Option.bind_eq_bind, Option.bind_some]
  cases readUnits rest <;> rfl

/-- A number below the surrogates is a character. -/
theorem joinUnits_low {n : ℕ} (h : n < 0xD800) (us : List Unit16) :
    joinUnits (.unit n :: us) = (joinUnits us).map (Char.ofNat n :: ·) := by
  rcases us with _ | ⟨_ | _ | _, us⟩ <;> simp [joinUnits, h]

/-- A character without escape is read as itself. -/
theorem readUnits_char {c : Char} (hlow : ¬c.toNat < 0x20) (hquote : c ≠ '"') (hback : c ≠ '\\')
    (rest : List Letter) :
    readUnits (some c :: rest) = (readUnits rest).map fun r => (.char c :: r.1, r.2) := by
  rw [readUnits]
  · rw [if_neg (not_or.2 ⟨hlow, hback⟩)]
    cases readUnits rest <;> rfl
  · exact hquote
  · exact fun _ _ _ _ _ _ heq => hback heq
  · exact fun _ _ _ heq => hback heq

/-- A character is read as itself, or as its number. -/
theorem readUnits_escape (c : Char) (rest : List Letter) :
    ∃ u, (∀ us, joinUnits (u :: us) = (joinUnits us).map (c :: ·)) ∧
      readUnits ((escape c).map some ++ rest) =
        (readUnits rest).map fun r => (u :: r.1, r.2) := by
  have hchar : ∀ us, joinUnits (.char c :: us) = (joinUnits us).map (c :: ·) := fun us => rfl
  unfold escape
  split
  · subst_vars
    exact ⟨_, hchar, readUnits_short (by decide) rfl rest⟩
  split
  · subst_vars
    exact ⟨_, hchar, readUnits_short (by decide) rfl rest⟩
  split
  · subst_vars
    exact ⟨_, hchar, readUnits_short (by decide) rfl rest⟩
  split
  · subst_vars
    exact ⟨_, hchar, readUnits_short (by decide) rfl rest⟩
  split
  · subst_vars
    exact ⟨_, hchar, readUnits_short (by decide) rfl rest⟩
  split
  · subst_vars
    exact ⟨_, hchar, readUnits_short (by decide) rfl rest⟩
  split
  · subst_vars
    exact ⟨_, hchar, readUnits_short (by decide) rfl rest⟩
  split
  · rename_i hlow
    refine ⟨_, ?_, readUnits_number (by omega) (Nat.mod_lt _ (by decide)) rest⟩
    have hnumber : c.toNat / 16 * 16 + c.toNat % 16 = c.toNat := by omega
    intro us
    rw [hnumber, joinUnits_low (by omega), Char.ofNat_toNat]
  · exact ⟨_, hchar, readUnits_char (by assumption) (by assumption) (by assumption) rest⟩

/-- A quoted text is read as the text. -/
theorem readUnits_quoted (cs : List Char) (rest : List Letter) :
    ∃ us, joinUnits us = some cs ∧
      readUnits ((cs.flatMap escape).map some ++ some '"' :: rest) = some (us, rest) := by
  induction cs with
  | nil => exact ⟨[], rfl, by rw [List.flatMap_nil, List.map_nil, List.nil_append, readUnits]⟩
  | cons c cs ih =>
    obtain ⟨us, hjoin, hread⟩ := ih
    obtain ⟨u, hu, hescape⟩ := readUnits_escape c ((cs.flatMap escape).map some ++ some '"' :: rest)
    refine ⟨u :: us, by rw [hu, hjoin, Option.map_some], ?_⟩
    rw [List.flatMap_cons, List.map_append, List.append_assoc, hescape, hread, Option.map_some]

theorem readText_quoted (s : String) (rest : List Letter) :
    readText ((s.toList.flatMap escape).map some ++ some '"' :: rest) = some (some s, rest) := by
  obtain ⟨us, hjoin, hread⟩ := readUnits_quoted s.toList rest
  rw [readText, hread]
  simp [hjoin]

theorem toList_quote (s : String) :
    (quote s).toList = '"' :: (s.toList.flatMap escape ++ ['"']) := by
  simp [quote]

end Document

/-! ## Texts of values -/

/-- The characters of a text as they are read. -/
def letters (s : String) : List Document.Letter := s.toList.map some

theorem letters_append (s t : String) : letters (s ++ t) = letters s ++ letters t := by
  rw [letters, String.toList_append, List.map_append]
  rfl

/-- With which character a value may begin. -/
def isFirst (c : Char) : Bool :=
  Document.isNumeralChar c || c = '"' || c = '[' || c = '\x7b' || c = 'n' || c = 't' || c = 'f'

theorem toList_enclose (first last : String) (parts : List String) :
    (enclose first last parts).toList =
      first.toList ++ ((String.intercalate "," parts).toList ++ last.toList) := by
  rw [enclose, String.toList_append, String.toList_append, List.append_assoc]

theorem exists_first_of_numeral {s : String} (hne : s.toList ≠ [])
    (h : ∀ c ∈ s.toList, Document.isNumeralChar c = true) :
    ∃ c cs, s.toList = c :: cs ∧ isFirst c = true := by
  obtain ⟨c, cs, hcs⟩ := List.exists_cons_of_ne_nil hne
  exact ⟨c, cs, hcs, by simp [isFirst, h c (by simp [hcs])]⟩

/-- An integer has characters. -/
theorem toString_int_ne_nil (n : ℤ) : (toString n).toList ≠ [] := by
  rw [toList_toString_int]
  split
  · exact List.cons_ne_nil _ _
  · exact Nat.toDigits_ne_nil

/-- The characters of a legible double are those of a numeral. -/
theorem Legible.double {x : Double} (h : (Json.double x).Legible) (hx : x.isFinite = true) :
    ∃ c cs n, x.jsonText.toList = c :: cs ∧ Document.numeralOfChars? (c :: cs) = some n ∧
      x.numeral? = some n := by
  obtain ⟨n, hn⟩ := Option.isSome_iff_exists.1 (h x List.mem_cons_self hx)
  cases hcs : x.jsonText.toList with
  | nil =>
    rw [Double.numeral?, hcs] at hn
    cases hn
  | cons c cs =>
    rw [Double.numeral?, hcs] at hn
    exact ⟨c, cs, n, rfl, hn, by rw [Double.numeral?, hcs, hn]⟩

/-- Each value begins with a character that says what it is. -/
theorem exists_first {v : Json} (h : v.Legible) :
    ∃ c cs, v.compact.toList = c :: cs ∧ isFirst c = true := by
  cases v with
  | null => exact ⟨'n', _, rfl, rfl⟩
  | bool b => cases b <;> exact ⟨_, _, rfl, rfl⟩
  | int n =>
    exact exists_first_of_numeral (toString_int_ne_nil n) (Document.isNumeric_int n)
  | double x =>
    by_cases hx : x.isFinite = true
    · obtain ⟨c, cs, n, hcs, -, -⟩ := h.double hx
      have htext : (Json.double x).compact = x.jsonText := if_pos hx
      rw [htext]
      exact exists_first_of_numeral (by simp [hcs]) (Document.isNumeric_jsonText _)
    · have htext : (Json.double x).compact = "null" := if_neg hx
      rw [htext]
      exact ⟨'n', _, rfl, rfl⟩
  | text s => exact ⟨'"', _, Document.toList_quote s, rfl⟩
  | array items => exact ⟨'[', _, toList_enclose _ _ _, rfl⟩
  | object members => exact ⟨'\x7b', _, toList_enclose _ _ _, rfl⟩

namespace Document

theorem isSpace_of_isFirst {c : Char} (h : isFirst c = true) : isSpace (some c) = false := by
  simp only [isFirst, Bool.or_eq_true, decide_eq_true_eq] at h
  rcases h with (((((h | rfl) | rfl) | rfl) | rfl) | rfl) | rfl
  · exact isSpace_of_isNumeralChar h
  all_goals rfl

/-- A value is not taken for the end of something. -/
theorem ne_of_isFirst {c d : Char} (h : isFirst c = true) (hd : isFirst d = false) : c ≠ d := by
  rintro rfl
  rw [h] at hd
  cases hd

/-! ## Parts -/

variable {fuel : ℕ} {d : Document} {ds : List Document} {name : Option String}
  {ms : List (Option String × Document)} {ls ls' rest : List Letter}

theorem ends_cons {c : Char} (h : isNumeralChar c = false) (rest : List Letter) :
    Ends (some c :: rest) := fun d hd => by
  cases hd
  exact h

theorem readItems_last (h : read fuel ls = some (d, some ']' :: rest)) :
    readItems (fuel + 1) ls = some ([d], rest) := by
  rw [readItems, h]
  rfl

theorem readItems_more (h : read fuel ls = some (d, some ',' :: ls'))
    (hmore : readItems fuel ls' = some (ds, rest)) :
    readItems (fuel + 1) ls = some (d :: ds, rest) := by
  have hcomma : skipSpace (some ',' :: ls') = some ',' :: ls' := rfl
  rw [readItems, h]
  simp only [Option.bind_eq_bind, Option.bind_some, hcomma, hmore]
  rfl

theorem read_items {c : Char} (hc : isFirst c = true)
    (h : readItems fuel (some c :: ls) = some (ds, rest)) :
    read (fuel + 1) (some '[' :: some c :: ls) = some (.array ds, rest) := by
  have hbracket : skipSpace (some '[' :: some c :: ls) = some '[' :: some c :: ls := rfl
  rw [read, hbracket]
  simp only [skipSpace_cons (isSpace_of_isFirst hc)]
  split
  · rename_i heq
    exact absurd (Option.some.inj (List.cons.inj heq).1) (ne_of_isFirst hc rfl)
  · rw [h]
    rfl

theorem readMembers_last (hname : readText ls = some (name, some ':' :: ls'))
    (h : read fuel ls' = some (d, some '\x7d' :: rest)) :
    readMembers (fuel + 1) (some '"' :: ls) = some ([(name, d)], rest) := by
  have hquote : skipSpace (some '"' :: ls) = some '"' :: ls := rfl
  have hcolon : skipSpace (some ':' :: ls') = some ':' :: ls' := rfl
  rw [readMembers, hquote]
  simp only [hname, Option.bind_eq_bind, Option.bind_some, hcolon, h]
  rfl

theorem readMembers_more {more : List Letter}
    (hname : readText ls = some (name, some ':' :: ls'))
    (h : read fuel ls' = some (d, some ',' :: more))
    (hmore : readMembers fuel more = some (ms, rest)) :
    readMembers (fuel + 1) (some '"' :: ls) = some ((name, d) :: ms, rest) := by
  have hquote : skipSpace (some '"' :: ls) = some '"' :: ls := rfl
  have hcolon : skipSpace (some ':' :: ls') = some ':' :: ls' := rfl
  have hcomma : skipSpace (some ',' :: more) = some ',' :: more := rfl
  rw [readMembers, hquote]
  simp only [hname, Option.bind_eq_bind, Option.bind_some, hcolon, h, hcomma, hmore]
  rfl

theorem read_members (h : readMembers fuel (some '"' :: ls) = some (ms, rest)) :
    read (fuel + 1) (some '\x7b' :: some '"' :: ls) = some (.object ms, rest) := by
  have hbrace : skipSpace (some '\x7b' :: some '"' :: ls) = some '\x7b' :: some '"' :: ls := rfl
  have hquote : skipSpace (some '"' :: ls) = some '"' :: ls := rfl
  rw [read, hbrace]
  simp only [hquote]
  split
  · rename_i heq
    exact absurd (Option.some.inj (List.cons.inj heq).1) (by decide)
  · rw [h]
    rfl

/-- A quoted text is read as a text. -/
theorem read_quoted (s : String) :
    read (fuel + 1) (some '"' :: ((s.toList.flatMap escape).map some ++ some '"' :: rest)) =
      some (.text (some s), rest) := by
  have hquote : ∀ ls, skipSpace (some '"' :: ls) = some '"' :: ls := fun _ => rfl
  rw [read, hquote]
  simp only [readText_quoted]
  rfl

end Document

/-! ## Values -/

theorem compact_array (items : List Json) :
    letters (Json.array items).compact =
      some '[' :: (letters (String.intercalate "," (compactItems items)) ++ [some ']']) := by
  rw [compact, letters, toList_enclose, List.map_append, List.map_append]
  rfl

theorem compact_object (members : List (String × Json)) :
    letters (Json.object members).compact =
      some '\x7b' ::
        (letters (String.intercalate "," (compactMembers members)) ++ [some '\x7d']) := by
  rw [compact, letters, toList_enclose, List.map_append, List.map_append]
  rfl

theorem letters_quote (s : String) :
    letters (quote s) = some '"' :: ((s.toList.flatMap escape).map some ++ [some '"']) := by
  rw [letters, Document.toList_quote, List.map_cons, List.map_append]
  rfl

/-- The doubles of a part are doubles of the whole. -/
theorem mem_doubles_array {items : List Json} {v : Json} (hv : v ∈ items) {x : Double}
    (hx : x ∈ v.doubles) : x ∈ (Json.array items).doubles := by
  rw [doubles, itemDoubles_eq]
  exact List.mem_flatMap_of_mem hv hx

theorem mem_doubles_object {members : List (String × Json)} {m : String × Json}
    (hm : m ∈ members) {x : Double} (hx : x ∈ m.2.doubles) :
    x ∈ (Json.object members).doubles := by
  rw [doubles, memberDoubles_eq]
  exact List.mem_flatMap_of_mem hm hx

theorem Legible.item {items : List Json} (h : (Json.array items).Legible) {v : Json}
    (hv : v ∈ items) : v.Legible := fun x hx => h x (mem_doubles_array hv hx)

theorem Legible.member {members : List (String × Json)} (h : (Json.object members).Legible)
    {m : String × Json} (hm : m ∈ members) : m.2.Legible :=
  fun x hx => h x (mem_doubles_object hm hx)

theorem Legible.items {v : Json} {vs : List Json} (h : (Json.array (v :: vs)).Legible) :
    (Json.array vs).Legible := by
  intro x hx
  refine h x ?_
  rw [doubles, itemDoubles]
  exact List.mem_append_right _ hx

theorem Legible.members {m : String × Json} {ms : List (String × Json)}
    (h : (Json.object (m :: ms)).Legible) : (Json.object ms).Legible := by
  intro x hx
  refine h x ?_
  obtain ⟨name, v⟩ := m
  rw [doubles, memberDoubles]
  exact List.mem_append_right _ hx

theorem toList_append_of_cons {s : String} {c : Char} {cs : List Char} (h : s.toList = c :: cs)
    (t : String) : (s ++ t).toList = c :: (cs ++ t.toList) := by
  rw [String.toList_append, h, List.cons_append]

/-- The items of an array begin like the first one. -/
theorem exists_first_items {v : Json} (h : v.Legible) (vs : List Json) :
    ∃ c cs, (String.intercalate "," (compactItems (v :: vs))).toList = c :: cs ∧
      isFirst c = true := by
  obtain ⟨c, cs, hcs, hfirst⟩ := exists_first h
  cases vs with
  | nil =>
    rw [compactItems, compactItems, String.intercalate_singleton]
    exact ⟨c, cs, hcs, hfirst⟩
  | cons w vs =>
    rw [compactItems, compactItems, String.intercalate_cons_cons]
    exact ⟨c, _, toList_append_of_cons (toList_append_of_cons hcs _) _, hfirst⟩

/-- The members of an object begin with a quotation mark. -/
theorem exists_first_members (name : String) (v : Json) (ms : List (String × Json)) :
    ∃ cs, (String.intercalate "," (compactMembers ((name, v) :: ms))).toList = '"' :: cs := by
  have hmember : (quote name ++ ":" ++ v.compact).toList = '"' :: _ :=
    toList_append_of_cons (toList_append_of_cons (Document.toList_quote name) _) _
  rcases ms with _ | ⟨⟨other, w⟩, ms⟩
  · rw [compactMembers, compactMembers, String.intercalate_singleton]
    exact ⟨_, hmember⟩
  · rw [compactMembers, compactMembers, String.intercalate_cons_cons]
    exact ⟨_, toList_append_of_cons (toList_append_of_cons hmember _) _⟩

/-- The text of a member. -/
theorem letters_member (name : String) (v : Json) :
    letters (quote name ++ ":" ++ v.compact) =
      letters (quote name) ++ some ':' :: letters v.compact := by
  rw [letters_append, letters_append, List.append_assoc]
  rfl

theorem letters_items (v w : Json) (vs : List Json) :
    letters (String.intercalate "," (compactItems (v :: w :: vs))) =
      letters v.compact ++
        some ',' :: letters (String.intercalate "," (compactItems (w :: vs))) := by
  rw [compactItems, compactItems, String.intercalate_cons_cons, letters_append, letters_append,
    List.append_assoc]
  rfl

theorem letters_members (name : String) (v : Json) (m : String × Json)
    (ms : List (String × Json)) :
    letters (String.intercalate "," (compactMembers ((name, v) :: m :: ms))) =
      letters (quote name) ++ some ':' :: (letters v.compact ++
        some ',' :: letters (String.intercalate "," (compactMembers (m :: ms)))) := by
  obtain ⟨other, w⟩ := m
  rw [compactMembers, compactMembers, String.intercalate_cons_cons, letters_append,
    letters_append, letters_member, List.append_assoc, List.append_assoc, List.cons_append]
  rfl

open Document

/-- A text of characters of numerals is read as a numeral. -/
theorem read_numeral_text {s : String} {n : Numeral} (hn : numeralOfChars? s.toList = some n)
    (hne : s.toList ≠ []) (h : ∀ c ∈ s.toList, isNumeralChar c = true) (fuel : ℕ)
    {rest : List Letter} (hr : Ends rest) :
    read (fuel + 1) (letters s ++ rest) = some (.numeral n, rest) := by
  obtain ⟨c, cs, hcs⟩ := List.exists_cons_of_ne_nil hne
  rw [letters, hcs, read_numeral (hcs ▸ h) hr, ← hcs, hn]
  rfl

/-- Whether a value is read from its text as its document. Each part takes two of
the fuel at most: one for itself and one for its place in an array or object. -/
def IsRead (v : Json) : Prop :=
  ∀ (fuel : ℕ) (rest : List Letter), 2 * (letters v.compact).length ≤ fuel + 1 → Ends rest →
    Document.read (fuel + 1) (letters v.compact ++ rest) = some (v.document, rest)

theorem isRead_double {x : Double} (h : (Json.double x).Legible) : (Json.double x).IsRead := by
  intro fuel rest _ hr
  by_cases hx : x.isFinite = true
  · obtain ⟨c, cs, n, hcs, hn, hx'⟩ := h.double hx
    have htext : (Json.double x).compact = x.jsonText := if_pos hx
    rw [htext, document, if_pos hx, hx']
    exact read_numeral_text (hcs ▸ hn) (by simp [hcs]) (isNumeric_jsonText _)
      fuel hr
  · have htext : (Json.double x).compact = "null" := if_neg hx
    rw [htext, document, if_neg hx]
    rfl

theorem isRead_text (s : String) : (Json.text s).IsRead := by
  intro fuel rest _ _
  rw [show (Json.text s).compact = quote s from rfl, letters_quote, List.cons_append,
    List.append_assoc, List.singleton_append, read_quoted]
  rfl

/-- The items of an array are read one after the other. -/
theorem readItems_compact {items : List Json} (h : (Json.array items).Legible)
    (hread : ∀ v ∈ items, v.IsRead) (hne : items ≠ []) (fuel : ℕ) (rest : List Letter)
    (hf : 2 * (letters (String.intercalate "," (compactItems items))).length ≤ fuel) :
    readItems (fuel + 1)
        (letters (String.intercalate "," (compactItems items)) ++ some ']' :: rest) =
      some (documents items, rest) := by
  induction items generalizing fuel with
  | nil => exact absurd rfl hne
  | cons v vs ih =>
    obtain ⟨c, cs, hcs, -⟩ := exists_first (h.item List.mem_cons_self)
    have hlength : 0 < (letters v.compact).length := by simp [letters, hcs]
    have hv : v.IsRead := hread v List.mem_cons_self
    cases vs with
    | nil =>
      rw [compactItems, compactItems, String.intercalate_singleton] at hf ⊢
      obtain ⟨fuel, rfl⟩ : ∃ k, fuel = k + 1 := ⟨fuel - 1, by omega⟩
      exact readItems_last (hv fuel _ hf (ends_cons rfl rest))
    | cons w vs =>
      rw [letters_items, List.length_append, List.length_cons] at hf
      obtain ⟨fuel, rfl⟩ : ∃ k, fuel = k + 1 := ⟨fuel - 1, by omega⟩
      rw [letters_items, List.append_assoc, List.cons_append]
      exact readItems_more (hv fuel _ (by omega) (ends_cons rfl _))
        (ih h.items (fun u hu => hread u (List.mem_cons_of_mem _ hu)) (List.cons_ne_nil _ _) fuel
          (by omega))

/-- The members of an object are read one after the other. -/
theorem readMembers_compact {members : List (String × Json)} (h : (Json.object members).Legible)
    (hread : ∀ m ∈ members, m.2.IsRead) (hne : members ≠ []) (fuel : ℕ) (rest : List Letter)
    (hf : 2 * (letters (String.intercalate "," (compactMembers members))).length ≤ fuel) :
    readMembers (fuel + 1)
        (letters (String.intercalate "," (compactMembers members)) ++ some '\x7d' :: rest) =
      some (memberDocuments members, rest) := by
  induction members generalizing fuel with
  | nil => exact absurd rfl hne
  | cons m ms ih =>
    obtain ⟨name, v⟩ := m
    have hv : v.IsRead := hread (name, v) List.mem_cons_self
    cases ms with
    | nil =>
      rw [compactMembers, compactMembers, String.intercalate_singleton, letters_member,
        List.length_append, List.length_cons] at hf
      obtain ⟨fuel, rfl⟩ : ∃ k, fuel = k + 1 := ⟨fuel - 1, by omega⟩
      rw [compactMembers, compactMembers, String.intercalate_singleton, letters_member,
        letters_quote, List.append_assoc, List.cons_append, List.append_assoc, List.cons_append]
      exact readMembers_last (readText_quoted name _) (hv fuel _ (by omega) (ends_cons rfl rest))
    | cons m ms =>
      rw [letters_members, List.length_append, List.length_cons, List.length_append,
        List.length_cons] at hf
      obtain ⟨fuel, rfl⟩ : ∃ k, fuel = k + 1 := ⟨fuel - 1, by omega⟩
      rw [letters_members, letters_quote, List.append_assoc, List.cons_append, List.append_assoc,
        List.singleton_append, List.cons_append, List.append_assoc, List.cons_append]
      exact readMembers_more (readText_quoted name _) (hv fuel _ (by omega) (ends_cons rfl _))
        (ih h.members (fun u hu => hread u (List.mem_cons_of_mem _ hu)) (List.cons_ne_nil _ _) fuel
          (by omega))

theorem isRead_array {items : List Json} (h : (Json.array items).Legible)
    (hread : ∀ v ∈ items, v.IsRead) : (Json.array items).IsRead := by
  intro fuel rest hf _
  cases items with
  | nil => rfl
  | cons v vs =>
    rw [compact_array, List.length_cons, List.length_append, List.length_singleton] at hf
    obtain ⟨fuel, rfl⟩ : ∃ k, fuel = k + 1 := ⟨fuel - 1, by omega⟩
    have hitems := readItems_compact h hread (List.cons_ne_nil _ _) fuel rest (by omega)
    obtain ⟨c, cs, hcs, hfirst⟩ := exists_first_items (h.item List.mem_cons_self) vs
    rw [compact_array, List.cons_append, List.append_assoc, List.singleton_append, document]
    rw [letters, hcs] at hitems ⊢
    exact read_items hfirst hitems

theorem isRead_object {members : List (String × Json)} (h : (Json.object members).Legible)
    (hread : ∀ m ∈ members, m.2.IsRead) : (Json.object members).IsRead := by
  intro fuel rest hf _
  rcases members with _ | ⟨⟨name, v⟩, ms⟩
  · rfl
  · rw [compact_object, List.length_cons, List.length_append, List.length_singleton] at hf
    obtain ⟨fuel, rfl⟩ : ∃ k, fuel = k + 1 := ⟨fuel - 1, by omega⟩
    have hmembers := readMembers_compact h hread (List.cons_ne_nil _ _) fuel rest (by omega)
    obtain ⟨cs, hcs⟩ := exists_first_members name v ms
    rw [compact_object, List.cons_append, List.append_assoc, List.singleton_append, document]
    rw [letters, hcs] at hmembers ⊢
    exact read_members hmembers

/-- The text of a value is read as its document. -/
theorem read_compact (v : Json) (h : v.Legible) : v.IsRead := by
  induction v using Json.induction with
  | null => exact fun _ _ _ _ => rfl
  | bool b => cases b <;> exact fun _ _ _ _ => rfl
  | int n =>
    exact fun fuel rest _ hr => read_numeral_text (numeralOfChars?_int n) (toString_int_ne_nil n)
      (isNumeric_int _) fuel hr
  | double x => exact isRead_double h
  | text s => exact isRead_text s
  | array items ih => exact isRead_array h fun v hv => ih v hv (h.item hv)
  | object members ih => exact isRead_object h fun m hm => ih m hm (h.member hm)

/-! ## Whole texts -/

/-- The text of a value is its document. -/
theorem ofText?_compact {v : Json} (h : v.Legible) :
    Document.ofText? v.compact = some v.document := by
  have hread := read_compact v h (2 * (letters v.compact).length + 1) [] (by omega)
    fun _ hc => by cases hc
  rw [List.append_nil] at hread
  rw [Document.ofText?, show v.compact.toList.map some = letters v.compact from rfl, ofLetters?,
    hread]
  rfl

/-- So are the bytes of the text. -/
theorem ofBytes?_compact {v : Json} (h : v.Legible) :
    Document.ofBytes? v.compact.toUTF8 = some v.document := by
  rw [Document.ofBytes?, Text.Utf8.decode_toUTF8]
  exact ofText?_compact h

end FilmCatalog.Json

namespace FilmCatalog

/-- A double that is read back is written as a numeral. -/
theorem Double.ReadsBack.numeral {x : Double} (h : x.ReadsBack) :
    ∃ n, x.numeral? = some n ∧ n.double? = some x := by
  rw [ReadsBack, Json.Decoder.ofText?, Json.Document.ofText?, Json.Document.ofLetters?] at h
  cases hcs : x.jsonText.toList with
  | nil =>
    rw [hcs] at h
    cases h
  | cons c cs =>
    have hchars : ∀ d ∈ c :: cs, Json.Document.isNumeralChar d = true := fun d hd =>
      Json.Document.isNumeric_jsonText _ _ (hcs ▸ hd)
    have hread : Json.Document.read (2 * ((c :: cs).map some).length + 1 + 1)
        ((c :: cs).map some ++ []) =
          (Json.Document.numeralOfChars? (c :: cs)).map fun n => (.numeral n, []) :=
      Json.Document.read_numeral hchars fun _ hc => by cases hc
    rw [List.append_nil] at hread
    rw [hcs, hread] at h
    rw [numeral?, hcs]
    cases hn : Json.Document.numeralOfChars? (c :: cs) with
    | none =>
      rw [hn] at h
      cases h
    | some n =>
      rw [hn] at h
      exact ⟨n, rfl, h⟩

end FilmCatalog
