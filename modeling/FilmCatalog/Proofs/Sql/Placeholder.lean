import FilmCatalog.Listing.Sql
import FilmCatalog.Proofs.Number.Digits

/-!
# Placeholders

A statement is read from left to right: a dollar sign and the digits behind it
are a placeholder, everything else stands for itself. Putting each argument in
at its placeholder must give the fragment back from which the statement was
written (`Statement.Carries`).

That works for every fragment whose text has no dollar sign and no digit right
behind a value (`legible`), and all fragments of a listing are of this kind,
because no value ever gets into their text.

Key definitions: `Token`, `Fragment.tokens`, `Statement.placeholders`, `Statement.filled?`,
`Statement.Carries`, `legible`.
Key theorems: `carries_of_legible`, `ListingQuery.legible_fragment`,
`arguments_stand_at_placeholders`.
-/

namespace FilmCatalog

/-- What a fragment has at one place: a character of its text or a value. -/
inductive Token where
  | char (c : Char)
  | bound (v : SqlValue)
  deriving DecidableEq

def Piece.tokens : Piece → List Token
  | .sql t => t.toList.map .char
  | .value v => [.bound v]

/-- The text and the values of a fragment in their order. -/
def Fragment.tokens (f : Fragment) : List Token := f.pieces.flatMap Piece.tokens

/-! ## Reading a statement -/

/-- What the text of a statement has at one place. -/
inductive Mark where
  | char (c : Char)
  | placeholder (n : ℕ)

namespace Mark

/-- Reads a text. In the middle of a placeholder the number so far is given. -/
def readFrom : Option ℕ → List Char → List Mark
  | none, [] => []
  | some n, [] => [.placeholder n]
  | none, c :: rest => if c = '$' then readFrom (some 0) rest else .char c :: readFrom none rest
  | some n, c :: rest =>
    match digitValue? c with
    | some d => readFrom (some (10 * n + d)) rest
    | none =>
      .placeholder n ::
        if c = '$' then readFrom (some 0) rest else .char c :: readFrom none rest

/-- The number of a placeholder. -/
def number? : Mark → Option ℕ
  | char _ => none
  | placeholder n => some n

/-- What a mark stands for, given the arguments of the statement. -/
def token? (args : List SqlValue) : Mark → Option Token
  | char c => some (.char c)
  | placeholder 0 => none
  | placeholder (n + 1) => args[n]?.map .bound

end Mark

namespace Statement

/-- The text of a statement, read. -/
def marks (s : Statement) : List Mark := Mark.readFrom none s.sql.toList

/-- The numbers of the placeholders from left to right. -/
def placeholders (s : Statement) : List ℕ := s.marks.filterMap Mark.number?

/-- The statement with each argument put in at its placeholder. -/
def filled? (s : Statement) : Option (List Token) := s.marks.mapM (Mark.token? s.args)

/-- Whether the placeholders are `$1`, `$2`, … in this order, one for each
argument, and the arguments belong where these tokens have their values. -/
structure Carries (s : Statement) (ts : List Token) : Prop where
  numbered : s.placeholders = List.range' 1 s.args.length
  filled : s.filled? = some ts

end Statement

/-! ## Writing tokens -/

namespace Token

/-- The value of a token. -/
def value? : Token → Option SqlValue
  | char _ => none
  | bound v => some v

/-- The text of tokens behind `n` arguments. -/
def written : ℕ → List Token → List Char
  | _, [] => []
  | n, char c :: rest => c :: written n rest
  | n, bound _ :: rest => '$' :: Nat.toDigits 10 (n + 1) ++ written (n + 1) rest

/-- What is read where tokens were written behind `n` arguments. -/
def marked : ℕ → List Token → List Mark
  | _, [] => []
  | n, char c :: rest => .char c :: marked n rest
  | n, bound _ :: rest => .placeholder (n + 1) :: marked (n + 1) rest

/-- The values of tokens in their order. -/
def values (ts : List Token) : List SqlValue := ts.filterMap value?

@[simp] theorem values_nil : values [] = [] := rfl

@[simp] theorem values_char (c : Char) (ts : List Token) : values (char c :: ts) = values ts := rfl

@[simp] theorem values_bound (v : SqlValue) (ts : List Token) :
    values (bound v :: ts) = v :: values ts := rfl

@[simp] theorem values_append (ts us : List Token) : values (ts ++ us) = values ts ++ values us :=
  List.filterMap_append ..

theorem values_map_char (cs : List Char) : values (cs.map char) = [] := by
  induction cs with
  | nil => rfl
  | cons c cs ih => exact ih

theorem written_append (n : ℕ) (ts us : List Token) :
    written n (ts ++ us) = written n ts ++ written (n + (values ts).length) us := by
  induction ts generalizing n with
  | nil => rfl
  | cons t ts ih =>
    cases t with
    | char c => simp [written, ih]
    | bound v => simp [written, ih, Nat.add_assoc, Nat.add_comm 1]

theorem written_map_char (n : ℕ) (cs : List Char) : written n (cs.map char) = cs := by
  induction cs with
  | nil => rfl
  | cons c cs ih => simp [written, ih]

/-- The placeholders are numbered on from those before. -/
theorem numbers_marked (n : ℕ) (ts : List Token) :
    (marked n ts).filterMap Mark.number? = List.range' (n + 1) (values ts).length := by
  induction ts generalizing n with
  | nil => rfl
  | cons t ts ih =>
    cases t with
    | char c => exact ih n
    | bound v =>
      rw [marked, values_bound, List.length_cons, List.range'_succ, ← ih (n + 1)]
      rfl

/-- Each placeholder stands for the value that was written there. -/
theorem mapM_marked (before : List SqlValue) (ts : List Token) :
    (marked before.length ts).mapM (Mark.token? (before ++ values ts)) = some ts := by
  induction ts generalizing before with
  | nil => rfl
  | cons t ts ih =>
    cases t with
    | char c =>
      rw [marked, List.mapM_cons, values_char, ih]
      rfl
    | bound v =>
      have hrest := ih (before ++ [v])
      rw [List.length_append, List.length_singleton, List.append_assoc,
        List.singleton_append] at hrest
      have hown : Mark.token? (before ++ v :: values ts) (.placeholder (before.length + 1)) =
          some (bound v) := by
        simp [Mark.token?]
      rw [marked, List.mapM_cons, values_bound, hown, hrest]
      rfl

end Token

/-! ## Fragments as tokens -/

namespace Fragment

theorem flatMap_addPiece (ps : List Piece) (p : Piece) :
    (addPiece ps p).flatMap Piece.tokens = ps.flatMap Piece.tokens ++ p.tokens := by
  fun_induction addPiece ps p with
  | case1 p => simp
  | case2 s t => simp [Piece.tokens]
  | case3 q rest p _ ih => simp [ih]

@[simp] theorem tokens_append (f g : Fragment) : (f ++ g).tokens = f.tokens ++ g.tokens := by
  show (g.pieces.foldl addPiece f.pieces).flatMap Piece.tokens = _
  unfold tokens
  induction g.pieces generalizing f with
  | nil => simp
  | cons p ps ih =>
    rw [List.foldl_cons, ih ⟨addPiece f.pieces p⟩, flatMap_addPiece, List.flatMap_cons,
      List.append_assoc]

@[simp] theorem tokens_text (s : String) : (text s).tokens = s.toList.map .char := by
  simp [tokens, text, Piece.tokens]

@[simp] theorem tokens_value (v : SqlValue) : (value v).tokens = [.bound v] := rfl

@[simp] theorem tokens_empty : empty.tokens = [] := rfl

/-- Joined fragments stand one behind the other, all but the first behind a separator. -/
theorem tokens_joined (separator : String) (f : Fragment) (fs : List Fragment) :
    (joined separator (f :: fs)).tokens =
      f.tokens ++ fs.flatMap fun g => (text separator).tokens ++ g.tokens := by
  rw [joined]
  induction fs generalizing f with
  | nil => simp
  | cons g fs ih =>
    have hpush : (f.push separator ++ g).tokens =
        f.tokens ++ ((text separator).tokens ++ g.tokens) := by
      rw [← List.append_assoc, tokens_append]
      exact congrArg (· ++ g.tokens) (tokens_append f (text separator))
    rw [List.foldl_cons, ih, hpush, List.flatMap_cons, List.append_assoc]

/-- Writing a fragment is writing its tokens. -/
theorem writeOn_eq (f : Fragment) (s : Statement) :
    (f.writeOn s).sql.toList = s.sql.toList ++ Token.written s.args.length f.tokens ∧
      (f.writeOn s).args = s.args ++ Token.values f.tokens := by
  unfold writeOn tokens
  induction f.pieces generalizing s with
  | nil => simp [Token.written]
  | cons p ps ih =>
    obtain ⟨hsql, hargs⟩ := ih (writePiece s p)
    rw [List.foldl_cons, hsql, hargs, List.flatMap_cons, Token.written_append, Token.values_append]
    cases p with
    | sql t => simp [writePiece, Piece.tokens, Token.written_map_char, Token.values_map_char]
    | value v =>
      simp [writePiece, Piece.tokens, Token.written]

end Fragment

/-! ## Legible tokens -/

namespace Token

/-- Whether tokens can be told apart in text: no dollar sign among the
characters and no digit right behind a value. At the front a digit may stand
only if `free`. -/
def legible : Bool → List Token → Bool
  | _, [] => true
  | free, char c :: rest => c != '$' && (free || !c.isDigit) && legible true rest
  | _, bound _ :: rest => legible false rest

theorem legible_free {ts : List Token} (h : legible false ts = true) (free : Bool) :
    legible free ts = true := by
  cases ts with
  | nil => rfl
  | cons t ts =>
    cases t with
    | char c =>
      simp only [legible, Bool.false_or, Bool.and_eq_true] at h
      simp [legible, h.1.1, h.1.2, h.2]
    | bound v => exact h

theorem legible_append {free : Bool} {ts us : List Token} (h : legible free ts = true)
    (hu : legible false us = true) : legible free (ts ++ us) = true := by
  induction ts generalizing free with
  | nil => exact legible_free hu free
  | cons t ts ih =>
    cases t with
    | char c =>
      simp only [legible, Bool.and_eq_true] at h
      simp only [List.cons_append, legible, Bool.and_eq_true]
      exact ⟨h.1, ih h.2⟩
    | bound v => exact ih h

theorem legible_chars {cs : List Char} (h : '$' ∉ cs) : legible true (cs.map char) = true := by
  induction cs with
  | nil => rfl
  | cons c cs ih =>
    rw [List.mem_cons, not_or] at h
    simp [legible, ih h.2, Ne.symm h.1]

/-- The digits of a placeholder are read up to the next token. -/
theorem readFrom_digits {cs rest : List Char} (h : ∀ c ∈ cs, c.isDigit = true) (n : ℕ) :
    Mark.readFrom (some n) (cs ++ rest) = Mark.readFrom (some (Nat.ofDigitChars 10 cs n)) rest := by
  induction cs generalizing n with
  | nil => rfl
  | cons c cs ih =>
    rw [List.cons_append, Mark.readFrom, digitValue?_of_isDigit (h c List.mem_cons_self)]
    exact ih (fun d hd => h d (List.mem_cons_of_mem _ hd)) _

/-- Tokens that can be told apart are read as they were written. -/
theorem readFrom_written {free : Bool} {ts : List Token} (h : legible free ts = true) (n : ℕ) :
    Mark.readFrom none (written n ts) = marked n ts ∧
      (free = false → ∀ k, Mark.readFrom (some k) (written n ts) =
        .placeholder k :: marked n ts) := by
  induction ts generalizing free n with
  | nil => exact ⟨rfl, fun _ _ => rfl⟩
  | cons t ts ih =>
    cases t with
    | char c =>
      simp only [legible, Bool.and_eq_true, bne_iff_ne, ne_eq] at h
      obtain ⟨⟨hc, hd⟩, hts⟩ := h
      have hrest := (ih hts n).1
      refine ⟨by rw [written, Mark.readFrom, if_neg hc, hrest, marked], fun hf k => ?_⟩
      have hdigit : digitValue? c = none := digitValue?_of_not_isDigit (by simpa [hf] using hd)
      rw [written, Mark.readFrom, hdigit, if_neg hc, hrest, marked]
    | bound v =>
      have hrest := (ih h (n + 1)).2 rfl
      have hread : Mark.readFrom (some 0) (Nat.toDigits 10 (n + 1) ++ written (n + 1) ts) =
          .placeholder (n + 1) :: marked (n + 1) ts := by
        rw [readFrom_digits (fun c => isDigit_of_mem_toDigits), Nat.ofDigitChars_ten_toDigits,
          hrest]
      refine ⟨by rw [written, List.cons_append, Mark.readFrom, if_pos rfl, hread, marked],
        fun _ k => ?_⟩
      have hdollar : digitValue? '$' = none := rfl
      rw [written, List.cons_append, Mark.readFrom, hdollar, if_pos rfl, hread, marked]

end Token

/-- A statement that was written from legible tokens carries them. -/
theorem Statement.carries_of_legible {s : Statement} {ts : List Token} {free : Bool}
    (h : Token.legible free ts = true) (hsql : s.sql.toList = Token.written 0 ts)
    (hargs : s.args = Token.values ts) : s.Carries ts := by
  have hmarks : s.marks = Token.marked 0 ts := by
    rw [marks, hsql, (Token.readFrom_written h 0).1]
  refine ⟨?_, ?_⟩
  · rw [placeholders, hmarks, Token.numbers_marked, hargs]
  · rw [filled?, hmarks, hargs]
    exact Token.mapM_marked [] ts

namespace Fragment

/-- Whether a fragment can stand anywhere in a statement. -/
def Legible (f : Fragment) : Prop := Token.legible false f.tokens = true

theorem Legible.append {f g : Fragment} (hf : f.Legible) (hg : g.Legible) : (f ++ g).Legible := by
  rw [Legible, tokens_append]
  exact Token.legible_append hf hg

theorem legible_empty : empty.Legible := rfl

theorem Legible.carries {f : Fragment} (h : f.Legible) : f.toStatement.Carries f.tokens := by
  obtain ⟨hsql, hargs⟩ := f.writeOn_eq ⟨"", []⟩
  exact Statement.carries_of_legible h hsql hargs

end Fragment

namespace Fragment

theorem Legible.text_append {s t : String} (hs : (text s).Legible) (ht : (text t).Legible) :
    (text (s ++ t)).Legible := by
  rw [Legible, tokens_text, String.toList_append, List.map_append, ← tokens_text, ← tokens_text]
  exact Token.legible_append hs ht

theorem Legible.joined {separator : String} (hs : (text separator).Legible) {fs : List Fragment}
    (h : ∀ f ∈ fs, f.Legible) : (joined separator fs).Legible := by
  cases fs with
  | nil => exact legible_empty
  | cons f fs =>
    rw [Fragment.joined]
    induction fs generalizing f with
    | nil => exact h f List.mem_cons_self
    | cons g fs ih =>
      refine ih _ fun k hk => ?_
      rcases List.mem_cons.1 hk with rfl | hk
      · exact ((h f List.mem_cons_self).append hs).append (h g (by simp))
      · exact h k (by simp [hk])

/-- Each of some fragments stands in the one that joins them. -/
theorem infix_joined (separator : String) {fs : List Fragment} {f : Fragment} (h : f ∈ fs) :
    f.tokens <:+: (joined separator fs).tokens := by
  cases fs with
  | nil => cases h
  | cons g fs =>
    rw [tokens_joined]
    rcases List.mem_cons.1 h with rfl | h
    · exact (List.prefix_append _ _).isInfix
    · obtain ⟨before, behind, rfl⟩ := List.append_of_mem h
      simp only [List.flatMap_append, List.flatMap_cons, ← List.append_assoc]
      exact List.infix_append_of_infix_left (List.suffix_append _ _).isInfix

end Fragment

/-! ## Listings -/

open Fragment

theorem Condition.legible_fragment (c : Condition) : c.fragment.Legible := by
  cases c with
  | flagIs flag b => cases flag <;> simp [Legible, Condition.fragment, Flag.column, Token.legible]
  | sideWithin side limit bound =>
    cases side <;> cases limit <;>
      simp [Legible, Condition.fragment, Side.column, RangeEnd.sql, Token.legible]
  | ratioWithin limit bound =>
    cases limit <;> simp [Legible, Condition.fragment, RangeEnd.sql, Token.legible]
  | _ => simp [Legible, Condition.fragment, Token.legible]

theorem RowOrder.legible_fragment (o : RowOrder) : o.fragment.Legible := by
  cases o <;> simp [Legible, RowOrder.fragment, Token.legible]

theorem ColorPredicate.legible_fragment (c : ColorPredicate) : c.fragment.Legible := by
  simp [Legible, ColorPredicate.fragment, Token.legible]

theorem legible_wordFragment (word : String) : (wordFragment word).Legible := by
  simp [Legible, wordFragment, Token.legible]

theorem legible_colorColumns : (text colorColumns).Legible := by
  refine .text_append (.text_append (.text_append ?_ ?_) ?_) ?_ <;> simp [Legible, Token.legible]

theorem legible_keywordColumns : (text keywordColumns).Legible := by
  refine .text_append ?_ ?_ <;> simp [Legible, Token.legible]

theorem legible_postColumns : (text postColumns).Legible := by
  refine .text_append (.text_append (.text_append (.text_append ?_ ?_) ?_) ?_) ?_ <;>
    simp [Legible, Token.legible]

theorem legible_gathered {table columns : String} {among : Option Fragment}
    (ht : (text table).Legible) (hc : (text columns).Legible)
    (ha : ∀ f, among = some f → f.Legible) : (gathered table columns among).Legible := by
  have hselect : (text "(SELECT post_id, ").Legible := by simp [Legible, Token.legible]
  have hfrom : (text " FROM ").Legible := by simp [Legible, Token.legible]
  have hwhere : (text " WHERE post_id IN (").Legible := by simp [Legible, Token.legible]
  have hclose : (text ")").Legible := by simp [Legible, Token.legible]
  have hgroup : (text " GROUP BY post_id)").Legible := by simp [Legible, Token.legible]
  have hfront := Legible.text_append (.text_append (.text_append hselect hc) hfrom) ht
  cases among with
  | none => exact (hfront.append legible_empty).append hgroup
  | some f => exact (hfront.append ((hwhere.append (ha f rfl)).append hclose)).append hgroup

theorem infix_gathered (table columns : String) (f : Fragment) :
    f.tokens <:+: (gathered table columns (some f)).tokens := by
  simp only [gathered, tokens_append]
  exact List.infix_append_of_infix_left (List.infix_append_of_infix_right
    (List.infix_append_of_infix_left (List.suffix_append _ _).isInfix))

theorem legible_intersection? {sets : List Fragment} (h : ∀ f ∈ sets, f.Legible) {f : Fragment}
    (hf : intersection? sets = some f) : f.Legible := by
  unfold intersection? at hf
  split at hf
  · cases hf
  · cases hf
    exact .joined (by simp [Legible, Token.legible]) h

theorem infix_intersection? {sets : List Fragment} {f g : Fragment} (hg : g ∈ sets)
    (hf : intersection? sets = some f) : g.tokens <:+: f.tokens := by
  unfold intersection? at hf
  split at hf
  · cases hf
  · cases hf
    exact infix_joined _ hg

namespace ListingQuery

variable {q : ListingQuery} {f : Fragment}

theorem legible_colorFilter (h : q.colorFilter = some f) : f.Legible := by
  refine legible_intersection? (fun g hg => ?_) h
  obtain ⟨c, -, rfl⟩ := List.mem_map.1 hg
  exact c.legible_fragment

theorem legible_keywordFilter (h : q.keywordFilter = some f) : f.Legible := by
  refine legible_intersection? (fun g hg => ?_) h
  obtain ⟨word, -, rfl⟩ := List.mem_map.1 hg
  exact legible_wordFragment word

theorem legible_whereClause (h : q.whereClause = some f) : f.Legible := by
  unfold whereClause at h
  split at h
  · cases h
  · cases h
    refine .joined (by simp [Legible, Token.legible]) fun g hg => ?_
    obtain ⟨c, -, rfl⟩ := List.mem_map.1 hg
    exact c.legible_fragment

theorem legible_joinKind (k : JoinKind) : (text k.sql).Legible := by
  cases k <;> simp [JoinKind.sql, Legible, Token.legible]

theorem legible_where (q : ListingQuery) :
    (match q.whereClause with
    | some conditions => text " WHERE " ++ conditions
    | none => empty).Legible := by
  cases h : q.whereClause with
  | none => exact legible_empty
  | some conditions =>
    have htext : (text " WHERE ").Legible := by simp [Legible, Token.legible]
    exact htext.append (legible_whereClause h)

/-- No value gets into the text of a listing. -/
theorem legible_fragment (q : ListingQuery) : q.fragment.Legible := by
  have hcolors : (gathered "colors" colorColumns q.colorFilter).Legible :=
    legible_gathered (by simp [Legible, Token.legible]) legible_colorColumns
      fun _ => legible_colorFilter
  have hkeywords : (gathered "keywords" keywordColumns q.keywordFilter).Legible :=
    legible_gathered (by simp [Legible, Token.legible]) legible_keywordColumns
      fun _ => legible_keywordFilter
  have hselect : (text ("SELECT " ++ postColumns ++
      ", c.hexes, c.csses, c.htmls, c.percents, k.words, k.weights" ++
      ", COUNT(*) OVER() AS total_count FROM posts p " ++ q.colorJoin.sql ++ " ")).Legible := by
    refine .text_append (.text_append (.text_append (.text_append (.text_append ?_
      legible_postColumns) ?_) ?_) (legible_joinKind _)) ?_ <;> simp [Legible, Token.legible]
  have hon : (text (" c ON c.post_id = p.id " ++ q.keywordJoin.sql ++ " ")).Legible := by
    refine .text_append (.text_append ?_ (legible_joinKind _)) ?_ <;> simp [Legible, Token.legible]
  have hkeyword : (text " k ON k.post_id = p.id").Legible := by simp [Legible, Token.legible]
  have horder : (text " ORDER BY ").Legible := by simp [Legible, Token.legible]
  exact ((((((hselect.append hcolors).append hon).append hkeywords).append hkeyword).append
    q.legible_where).append horder).append q.order.legible_fragment

/-- The limit as it stands behind the fragment. -/
def limitTokens (q : ListingQuery) : List Token := q.limitSql.toList.map .char

theorem legible_limit (q : ListingQuery) : Token.legible false q.limitTokens = true := by
  unfold limitTokens limitSql
  cases q.limit with
  | none => rfl
  | some n =>
    have hdigits : Token.legible true ((toString n).toList.map .char) = true := by
      refine Token.legible_chars fun h => ?_
      rcases mem_toString_int h with hd | hd <;> exact absurd hd (by decide)
    simpa [Token.legible] using hdigits

/-- The fragments of which a listing is composed, each with its own values. -/
def parts (q : ListingQuery) : List Fragment :=
  q.colors.map ColorPredicate.fragment ++ q.keywords.map wordFragment ++
    q.conditions.map Condition.fragment ++ [q.order.fragment]

/-- Each part stands in the listing as it is. -/
theorem infix_fragment {g : Fragment} (hg : g ∈ q.parts) : g.tokens <:+: q.fragment.tokens := by
  have hleft : ∀ {ts us vs : List Token}, ts <:+: us → ts <:+: us ++ vs :=
    List.infix_append_of_infix_left
  have hright : ∀ {ts us vs : List Token}, ts <:+: vs → ts <:+: us ++ vs :=
    List.infix_append_of_infix_right
  simp only [parts, List.mem_append, List.mem_singleton] at hg
  simp only [fragment, tokens_append]
  rcases hg with ((hc | hk) | hw) | rfl
  · obtain ⟨f, hf⟩ : ∃ f, q.colorFilter = some f :=
      ⟨_, if_neg (by simpa using List.ne_nil_of_mem hc)⟩
    have hin : g.tokens <:+: (gathered "colors" colorColumns q.colorFilter).tokens :=
      (infix_intersection? hc hf).trans (hf ▸ infix_gathered _ _ f)
    exact hleft (hleft (hleft (hleft (hleft (hleft (hright hin))))))
  · obtain ⟨f, hf⟩ : ∃ f, q.keywordFilter = some f :=
      ⟨_, if_neg (by simpa using List.ne_nil_of_mem hk)⟩
    have hin : g.tokens <:+: (gathered "keywords" keywordColumns q.keywordFilter).tokens :=
      (infix_intersection? hk hf).trans (hf ▸ infix_gathered _ _ f)
    exact hleft (hleft (hleft (hleft (hright hin))))
  · have hf : q.whereClause = some (joined " AND " (q.conditions.map Condition.fragment)) :=
      if_neg (by simpa using List.ne_nil_of_mem hw)
    have hin : g.tokens <:+: (text " WHERE " ++
        joined " AND " (q.conditions.map Condition.fragment)).tokens := by
      rw [tokens_append]
      exact hright (infix_joined _ hw)
    rw [hf]
    exact hleft (hleft (hright hin))
  · exact (List.suffix_append _ _).isInfix

theorem carries_statement (q : ListingQuery) :
    q.statement.Carries (q.fragment.tokens ++ q.limitTokens) := by
  obtain ⟨hsql, hargs⟩ := q.fragment.writeOn_eq ⟨"", []⟩
  refine Statement.carries_of_legible (Token.legible_append q.legible_fragment q.legible_limit)
    ?_ ?_
  · rw [Token.written_append, limitTokens, Token.written_map_char]
    simpa [statement, toStatement] using hsql
  · rw [Token.values_append, limitTokens, Token.values_map_char, List.append_nil]
    exact hargs

end ListingQuery

/-- Whatever a filter asks for: reading the statement of its listing, the
placeholders are `$1`, `$2`, … in this order, one for each argument, and with
each argument put in at its placeholder the statement is the listing, in which
every predicate stands with its own values. The same holds for the set of posts
with the wanted colors, for that with the wanted words, and for the conditions
alone. -/
theorem arguments_stand_at_placeholders (filter : PostFilter) :
    let q := ListingQuery.ofFilter filter
    q.statement.Carries (q.fragment.tokens ++ q.limitTokens) ∧
      (∀ g ∈ q.parts, g.tokens <:+: q.fragment.tokens) ∧
      ∀ f, q.colorFilter = some f ∨ q.keywordFilter = some f ∨ q.whereClause = some f →
        f.toStatement.Carries f.tokens := by
  intro q
  refine ⟨q.carries_statement, fun g hg => ListingQuery.infix_fragment hg, fun f hf => ?_⟩
  rcases hf with h | h | h
  · exact (ListingQuery.legible_colorFilter h).carries
  · exact (ListingQuery.legible_keywordFilter h).carries
  · exact (ListingQuery.legible_whereClause h).carries

end FilmCatalog
