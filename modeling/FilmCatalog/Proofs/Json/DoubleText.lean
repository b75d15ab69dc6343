import FilmCatalog.Proofs.Json.Reading
import FilmCatalog.Proofs.Number.Shortest

/-!
# The JSON text of a double

The text of a finite double is laid out in parts: digits, at will a point with
more digits, at will an exponent (`Parts`). Such a text is read as the numeral of
its parts, and however the shortest decimal is laid out, the numeral has its
value. So every finite double is written as a numeral, one with a point or an
exponent, and different doubles are written as different numerals.

Key definitions: `Numeral.value`, `Double.Parts`, `Double.Decimal.Shows`.
Key theorems: `Double.Parts.numeralOfChars?_chars`, `Double.shows_shortest`,
`Double.exists_numeral`, `Double.ext_of_numeral`, `Json.legible`.
-/

namespace FilmCatalog

/-! ## Values of digits -/

/-- The digits that characters are. -/
def digitsOf (cs : List Char) : List ℕ := cs.map fun c => c.toNat - 48

theorem natOfDigits_append (ds es : List ℕ) :
    natOfDigits (ds ++ es) = natOfDigits ds * 10 ^ es.length + natOfDigits es := by
  induction es using List.reverseRecOn with
  | nil => simp [natOfDigits]
  | append_singleton es e ih =>
    have hlast (fs : List ℕ) : natOfDigits (fs ++ [e]) = 10 * natOfDigits fs + e := by
      simp [natOfDigits, List.foldl_append]
    rw [← List.append_assoc, hlast, hlast, ih, List.length_append, List.length_singleton, pow_succ]
    ring

theorem natOfDigits_zeros (n : ℕ) : natOfDigits (List.replicate n 0) = 0 := by
  induction n with
  | zero => rfl
  | succ n ih =>
    rw [List.replicate_succ', natOfDigits_append, ih]
    rfl

/-- The exact value of a numeral without its sign. -/
def Numeral.value (n : Numeral) : ℚ := natOfDigits n.digits * (10 : ℚ) ^ n.scale

namespace Double

/-! ## Parts of a text -/

/-- The parts of the text of a number: the digits before the point, those behind it if
there is a point, and the exponent if there is one. -/
structure Parts where
  whole : List Char
  fraction : Option (List Char)
  exponent : Option ℤ

namespace Parts

/-- The characters of an exponent. -/
def exponentChars (e : ℤ) : List Char :=
  'e' :: (if e < 0 then '-' else '+') :: Nat.toDigits 10 e.natAbs

/-- The characters of the parts. -/
def chars (p : Parts) (negative : Bool) : List Char :=
  (if negative then ['-'] else []) ++ (p.whole ++
    ((p.fraction.elim [] fun fs => '.' :: fs) ++ p.exponent.elim [] exponentChars))

/-- The numeral of the parts. -/
def numeral (p : Parts) (negative : Bool) : Numeral :=
  ⟨negative, digitsOf p.whole, p.fraction.map digitsOf, p.exponent⟩

/-- Whether digits are zero alone, or begin with another digit. -/
def Leads (cs : List Char) : Prop := digitsOf cs = [0] ∨ ∃ d ds, d ≠ 0 ∧ digitsOf cs = d :: ds

/-- Whether parts are such as JSON has them: no zero in front of other digits, a digit
on each side of a point. -/
structure Valid (p : Parts) : Prop where
  whole_digits : ∀ c ∈ p.whole, c.isDigit = true
  whole_first : Leads p.whole
  fraction_digits : ∀ fs ∈ p.fraction, fs ≠ [] ∧ ∀ c ∈ fs, c.isDigit = true

open Json.Document

theorem readWhole_append {cs rest : List Char} (hcs : ∀ c ∈ cs, c.isDigit = true)
    (hfirst : Leads cs) (hrest : ∀ c ∈ rest.head?, c.isDigit = false) :
    readWhole (cs ++ rest) = some (digitsOf cs, rest) := by
  have hspan : spanDigits (cs ++ rest) = (digitsOf cs, rest) := spanDigits_append hcs hrest
  rw [readWhole, hspan]
  rcases hfirst with hzero | ⟨d, ds, hd, hds⟩
  · rw [hzero]
    rfl
  · rw [hds]
    split <;> simp_all

theorem readFraction_append {cs rest : List Char} (hne : cs ≠ [])
    (hcs : ∀ c ∈ cs, c.isDigit = true) (hrest : ∀ c ∈ rest.head?, c.isDigit = false) :
    readFraction ('.' :: cs ++ rest) = some (some (digitsOf cs), rest) := by
  have hspan : spanDigits (cs ++ rest) = (digitsOf cs, rest) := spanDigits_append hcs hrest
  rw [List.cons_append, readFraction, hspan]
  cases cs with
  | nil => exact absurd rfl hne
  | cons c cs => rfl

theorem readExponent_chars (e : ℤ) : readExponent (exponentChars e) = some (some e, []) := by
  have hspan : spanDigits (Nat.toDigits 10 e.natAbs ++ []) =
      (decimalDigits e.natAbs, []) :=
    spanDigits_append (fun c hc => isDigit_of_mem_toDigits hc) (by simp)
  have hne : decimalDigits e.natAbs ≠ [] := by
    rcases decimalDigits_cases e.natAbs with ⟨-, h⟩ | ⟨d, ds, -, h⟩ <;> simp [h]
  rw [List.append_nil] at hspan
  have hread := natOfDigits_decimalDigits e.natAbs
  cases hds : decimalDigits e.natAbs with
  | nil => exact absurd hds hne
  | cons d ds =>
    rw [hds] at hspan hread
    by_cases hneg : e < 0
    · simp only [exponentChars, if_pos hneg, readExponent, true_or, if_true, hspan, hread]
      congr 3
      omega
    · simp only [exponentChars, if_neg hneg, readExponent, true_or, if_true, hspan, hread]
      simp
      omega

/-- Behind the digits of a part comes no digit. -/
theorem head_exponent (e : Option ℤ) :
    ∀ c ∈ (e.elim [] exponentChars).head?, c.isDigit = false := by
  intro c hc
  cases e with
  | none => cases hc
  | some e =>
    cases hc
    rfl

/-- What stands behind the whole part is read as the fraction and the exponent. -/
theorem read_behind {p : Parts} (h : p.Valid) :
    ∃ rest, readFraction ((p.fraction.elim [] fun fs => '.' :: fs) ++
        p.exponent.elim [] exponentChars) = some (p.fraction.map digitsOf, rest) ∧
      readExponent rest = some (p.exponent, []) := by
  have hexponent : readExponent (p.exponent.elim [] exponentChars) = some (p.exponent, []) := by
    cases p.exponent with
    | none => rfl
    | some e => exact readExponent_chars e
  refine ⟨p.exponent.elim [] exponentChars, ?_, hexponent⟩
  cases hfraction : p.fraction with
  | none =>
    cases p.exponent with
    | none => rfl
    | some e => rfl
  | some fs =>
    obtain ⟨hne, hdigits⟩ := h.fraction_digits fs hfraction
    exact readFraction_append hne hdigits (head_exponent _)

/-- The characters of valid parts are read as their numeral. -/
theorem numeralOfChars?_chars {p : Parts} (h : p.Valid) (negative : Bool) :
    Json.Document.numeralOfChars? (p.chars negative) = some (p.numeral negative) := by
  obtain ⟨rest, hfraction, hexponent⟩ := read_behind h
  have hbehind : ∀ c ∈ ((p.fraction.elim [] fun fs => '.' :: fs) ++
      p.exponent.elim [] exponentChars).head?, c.isDigit = false := by
    cases p.fraction with
    | none => exact head_exponent _
    | some fs =>
      intro c hc
      cases hc
      rfl
  have hwhole := readWhole_append h.whole_digits h.whole_first hbehind
  cases negative with
  | true =>
    simp only [chars, if_true, List.singleton_append, Json.Document.numeralOfChars?, hwhole,
      hfraction, hexponent, Option.bind_eq_bind, Option.bind_some, List.isEmpty_nil, numeral]
  | false =>
    cases hcs : p.whole with
    | nil =>
      have hfirst := h.whole_first
      rw [hcs] at hfirst
      simp [Leads, digitsOf] at hfirst
    | cons c cs =>
      have hminus : c ≠ '-' := by
        rintro rfl
        exact absurd (h.whole_digits '-' (by simp [hcs])) (by decide)
      rw [hcs] at hwhole
      rw [chars, if_neg (by simp), List.nil_append, hcs, List.cons_append,
        Json.Document.numeralOfChars?]
      · rw [List.cons_append] at hwhole
        simp only [hwhole, hfraction, hexponent, Option.bind_eq_bind, Option.bind_some,
          List.isEmpty_nil, if_true, numeral, hcs]
      · exact fun _ heq => hminus (List.cons.inj heq).1

theorem value_numeral (p : Parts) (negative : Bool) :
    (p.numeral negative).value =
      natOfDigits (digitsOf (p.whole ++ p.fraction.getD [])) *
        (10 : ℚ) ^ (p.exponent.getD 0 - (p.fraction.getD []).length) := by
  cases hfraction : p.fraction <;>
    simp [Numeral.value, numeral, Numeral.digits, Numeral.scale, hfraction, digitsOf]

end Parts

/-! ## Layouts -/

open Parts

theorem toList_digits (n : ℕ) : (toString n).toList = Nat.toDigits 10 n := by
  rw [Nat.toString_eq_ofList_toDigits, String.toList_ofList]

theorem isDigit_zeros {n : ℕ} {c : Char} (h : c ∈ List.replicate n '0') : c.isDigit = true := by
  rw [List.eq_of_mem_replicate h]
  rfl

theorem digitsOf_append (cs ds : List Char) : digitsOf (cs ++ ds) = digitsOf cs ++ digitsOf ds :=
  List.map_append

theorem digitsOf_zeros (n : ℕ) : digitsOf (List.replicate n '0') = List.replicate n 0 := by
  rw [digitsOf, List.map_replicate]
  rfl

theorem natOfDigits_toDigits (n : ℕ) : natOfDigits (digitsOf (Nat.toDigits 10 n)) = n :=
  natOfDigits_decimalDigits n

/-- Whether characters are the digits of a decimal before and behind a point. -/
structure Decimal.HasSides (d : Decimal) (ws rs : List Char) : Prop where
  sides_eq : d.sides = (String.ofList ws, String.ofList rs)
  whole_digits : ∀ c ∈ ws, c.isDigit = true
  rest_digits : ∀ c ∈ rs, c.isDigit = true
  first : Leads ws
  value : natOfDigits (digitsOf (ws ++ rs)) * (10 : ℚ) ^ (-(rs.length : ℤ)) = d.value

/-- Whether a text is that of a decimal: parts with its value and a point or an exponent. -/
def Decimal.Shows (d : Decimal) (s : String) : Prop :=
  ∃ p : Parts, p.Valid ∧ s.toList = p.chars false ∧ (p.numeral false).value = d.value ∧
    (p.fraction.isSome = true ∨ p.exponent.isSome = true)

section

variable {d : Decimal} (hd : d.digits ≠ 0)

include hd

/-- The first digit of a number that is not zero is not zero. -/
theorem exists_first_digit : ∃ e es, e ≠ 0 ∧ digitsOf (Nat.toDigits 10 d.digits) = e :: es := by
  rcases decimalDigits_cases d.digits with ⟨hzero, -⟩ | hfirst
  · exact absurd hzero hd
  · exact hfirst

/-- A decimal without places has zeros behind its digits. -/
theorem hasSides_whole (hscale : 0 ≤ d.scale) :
    d.HasSides (Nat.toDigits 10 d.digits ++ List.replicate d.scale.toNat '0') [] where
  sides_eq := by
    unfold Decimal.sides
    dsimp only
    rw [toList_digits, if_pos hscale, zeros, ← String.ofList_append]
  whole_digits c hc := (List.mem_append.1 hc).elim isDigit_of_mem_toDigits isDigit_zeros
  rest_digits := by simp
  first := by
    obtain ⟨e, es, he, hes⟩ := exists_first_digit hd
    refine .inr ⟨e, es ++ List.replicate d.scale.toNat 0, he, ?_⟩
    rw [digitsOf_append, hes, digitsOf_zeros, List.cons_append]
  value := by
    rw [List.append_nil, digitsOf_append, natOfDigits_append, digitsOf_zeros, natOfDigits_zeros,
      natOfDigits_toDigits, List.length_replicate, Decimal.value]
    push_cast
    rw [add_zero, ← zpow_natCast, Int.toNat_of_nonneg hscale]
    simp

/-- A decimal with fewer places than digits has the point among its digits. -/
theorem hasSides_among {k : ℕ} (hscale : ¬0 ≤ d.scale)
    (hplaces : (-d.scale).toNat < (Nat.toDigits 10 d.digits).length)
    (hk : (Nat.toDigits 10 d.digits).length - (-d.scale).toNat = k + 1) :
    d.HasSides ((Nat.toDigits 10 d.digits).take (k + 1))
      ((Nat.toDigits 10 d.digits).drop (k + 1)) where
  sides_eq := by
    unfold Decimal.sides
    dsimp only
    rw [toList_digits, if_neg hscale, if_pos hplaces, hk]
  whole_digits c hc := isDigit_of_mem_toDigits (List.mem_of_mem_take hc)
  rest_digits c hc := isDigit_of_mem_toDigits (List.mem_of_mem_drop hc)
  first := by
    obtain ⟨e, es, he, hes⟩ := exists_first_digit hd
    refine .inr ⟨e, es.take k, he, ?_⟩
    rw [digitsOf, List.map_take, ← digitsOf, hes, List.take_succ_cons]
  value := by
    have hlength : (((Nat.toDigits 10 d.digits).drop (k + 1)).length : ℤ) = -d.scale := by
      rw [List.length_drop]
      omega
    rw [List.take_append_drop, natOfDigits_toDigits, hlength, neg_neg, Decimal.value]

omit hd in
/-- A decimal with as many places as digits or more has zeros in front of its digits. -/
theorem hasSides_below (hscale : ¬0 ≤ d.scale)
    (hplaces : ¬(-d.scale).toNat < (Nat.toDigits 10 d.digits).length) :
    d.HasSides ['0'] (List.replicate ((-d.scale).toNat - (Nat.toDigits 10 d.digits).length) '0' ++
      Nat.toDigits 10 d.digits) where
  sides_eq := by
    unfold Decimal.sides
    dsimp only
    rw [toList_digits, if_neg hscale, if_neg hplaces, zeros, ← String.ofList_append]
  whole_digits := by simp
  rest_digits c hc := (List.mem_append.1 hc).elim isDigit_zeros isDigit_of_mem_toDigits
  first := .inl rfl
  value := by
    have hzero : natOfDigits (digitsOf ['0']) = 0 := rfl
    have hlength : ((List.replicate ((-d.scale).toNat - (Nat.toDigits 10 d.digits).length) '0' ++
        Nat.toDigits 10 d.digits).length : ℤ) = -d.scale := by
      rw [List.length_append, List.length_replicate]
      omega
    rw [hlength, neg_neg, digitsOf_append, natOfDigits_append, hzero, zero_mul, zero_add,
      digitsOf_append, natOfDigits_append, digitsOf_zeros, natOfDigits_zeros, zero_mul, zero_add,
      natOfDigits_toDigits, Decimal.value]

theorem exists_sides : ∃ ws rs, d.HasSides ws rs := by
  by_cases hscale : 0 ≤ d.scale
  · exact ⟨_, _, hasSides_whole hd hscale⟩
  · by_cases hplaces : (-d.scale).toNat < (Nat.toDigits 10 d.digits).length
    · obtain ⟨k, hk⟩ : ∃ k, (Nat.toDigits 10 d.digits).length - (-d.scale).toNat = k + 1 :=
        ⟨(Nat.toDigits 10 d.digits).length - (-d.scale).toNat - 1, by omega⟩
      exact ⟨_, _, hasSides_among hd hscale hplaces hk⟩
    · exact ⟨_, _, hasSides_below hscale hplaces⟩

/-- A decimal is shown with a point. -/
theorem shows_pointed : d.Shows d.pointed := by
  obtain ⟨ws, rs, h⟩ := exists_sides hd
  have hpointed : d.pointed = String.ofList ws ++ "." ++
      if (String.ofList rs).isEmpty = true then "0" else String.ofList rs := by
    rw [Decimal.pointed, h.sides_eq]
  by_cases hempty : rs = []
  · subst hempty
    have hzero : natOfDigits (digitsOf ['0']) = 0 := rfl
    refine ⟨⟨ws, some ['0'], none⟩, ⟨h.whole_digits, h.first, by simp⟩, ?_, ?_, .inl rfl⟩
    · rw [hpointed]
      simp [chars]
    · rw [value_numeral, ← h.value, Option.getD_some, digitsOf_append, natOfDigits_append, hzero]
      simp [digitsOf]
  · have hdigits : ∀ fs ∈ some rs, fs ≠ [] ∧ ∀ c ∈ fs, c.isDigit = true := by
      rintro fs hfs
      obtain rfl := Option.some.inj hfs
      exact ⟨hempty, h.rest_digits⟩
    refine ⟨⟨ws, some rs, none⟩, ⟨h.whole_digits, h.first, hdigits⟩, ?_, ?_, .inl rfl⟩
    · rw [hpointed]
      simp [chars, hempty]
    · rw [value_numeral, ← h.value]
      simp

/-- A decimal is shown with an exponent. -/
theorem shows_scientific : d.Shows d.scientific := by
  have hdigits : ∀ c ∈ Nat.toDigits 10 d.digits, c.isDigit = true := fun c hc =>
    isDigit_of_mem_toDigits hc
  obtain ⟨e, es, he, hes⟩ := exists_first_digit hd
  have hread := natOfDigits_toDigits d.digits
  have hleading : d.leading = ((Nat.toDigits 10 d.digits).length : ℤ) - 1 + d.scale := by
    rw [Decimal.leading, ← String.length_toList, toList_digits]
  have hlist : d.scientific.toList = (Nat.toDigits 10 d.digits).take 1 ++
      ((if (Nat.toDigits 10 d.digits).length ≤ 1 then [] else
        '.' :: (Nat.toDigits 10 d.digits).drop 1) ++ exponentChars d.leading) := by
    rw [Decimal.scientific, toList_digits]
    simp only [String.toList_append, String.toList_ofList, exponentChars, List.append_assoc,
      toList_digits]
    split_ifs <;> simp
  cases hcs : Nat.toDigits 10 d.digits with
  | nil => simp [hcs, digitsOf] at hes
  | cons c cs =>
    rw [hcs] at hdigits hes hread hleading hlist
    have hwhole : ∀ b ∈ [c], b.isDigit = true := by simpa using hdigits c List.mem_cons_self
    have hone : digitsOf [c] = [e] := by simpa [digitsOf] using (List.cons.inj hes).1
    have hscale : d.leading - (cs.length : ℤ) = d.scale := by
      rw [hleading, List.length_cons]
      push_cast
      ring
    by_cases hempty : cs = []
    · subst hempty
      refine ⟨⟨[c], none, some d.leading⟩, ⟨hwhole, .inr ⟨e, [], he, hone⟩, by simp⟩, ?_, ?_,
        .inr rfl⟩
      · rw [hlist]
        simp [chars]
      · rw [value_numeral, Option.getD_some, Option.getD_none, List.append_nil, hread, hscale,
          Decimal.value]
    · have hfraction : ∀ fs ∈ some cs, fs ≠ [] ∧ ∀ b ∈ fs, b.isDigit = true := by
        rintro fs hfs
        obtain rfl := Option.some.inj hfs
        exact ⟨hempty, fun b hb => hdigits b (List.mem_cons_of_mem _ hb)⟩
      refine ⟨⟨[c], some cs, some d.leading⟩, ⟨hwhole, .inr ⟨e, [], he, hone⟩, hfraction⟩, ?_, ?_,
        .inl rfl⟩
      · rw [hlist]
        simp [chars, hempty]
      · rw [value_numeral, Option.getD_some, Option.getD_some, List.singleton_append, hread, hscale,
          Decimal.value]

end

theorem toList_signed (x : Double) {s : String} {p : Parts} (h : s.toList = p.chars false) :
    (x.signed s).toList = p.chars x.negative := by
  unfold signed
  cases x.negative with
  | true =>
    rw [if_pos rfl, String.toList_append, h]
    rfl
  | false => rw [if_neg (by simp), h]

/-- Without its sign, the text of a double is that of its shortest decimal. -/
theorem shows_shortest (x : Double) :
    (x.shortest .even).Shows
      (if x.isZero then "0.0"
        else if -5 ≤ (x.shortest .even).leading && (x.shortest .even).leading < 16 then
          (x.shortest .even).pointed
        else (x.shortest .even).scientific) := by
  cases hzero : x.isZero with
  | true =>
    have hnone : natOfDigits (digitsOf ['0', '0']) = 0 := rfl
    rw [if_pos rfl]
    refine ⟨⟨['0'], some ['0'], none⟩, ⟨by simp, .inl rfl, by simp⟩, by decide, ?_, .inl rfl⟩
    rw [value_numeral, shortest, if_pos hzero, Decimal.value]
    simp [hnone]
  | false =>
    have hdigits := (covers_shortest hzero .even).2
    rw [if_neg (by simp)]
    split
    · exact shows_pointed hdigits
    · exact shows_scientific hdigits

/-- The numeral that a double is written as: a point or an exponent is in it, and its
value is that of the shortest decimal. -/
theorem exists_numeral (x : Double) :
    ∃ n, x.numeral? = some n ∧ n.negative = x.negative ∧ n.value = (x.shortest .even).value ∧
      (n.fraction.isSome = true ∨ n.exponent.isSome = true) := by
  obtain ⟨p, hvalid, hchars, hvalue, hmark⟩ := shows_shortest x
  have htext : x.jsonText.toList = p.chars x.negative := toList_signed x hchars
  refine ⟨p.numeral x.negative, ?_, rfl, hvalue, ?_⟩
  · rw [numeral?, htext, numeralOfChars?_chars hvalid]
  · simpa [numeral] using hmark

/-- Different doubles are written as different numerals. -/
theorem ext_of_numeral {x y : Double} (h : x.numeral? = y.numeral?) : x = y := by
  obtain ⟨n, hn, hnsign, hnvalue, -⟩ := exists_numeral x
  obtain ⟨k, hk, hksign, hkvalue, -⟩ := exists_numeral y
  obtain rfl : n = k := Option.some.inj (hn.symm.trans (h.trans hk))
  exact ext_of_shortest (hnsign.symm.trans hksign) (hnvalue.symm.trans hkvalue)

end Double

/-- Every value is written so that its doubles are numerals. -/
theorem Json.legible (v : Json) : v.Legible := by
  intro x _ _
  obtain ⟨n, hn, -⟩ := x.exists_numeral
  rw [hn]
  rfl

end FilmCatalog
