import FilmCatalog.Proofs.Sql.Placeholder

/-!
# Fragments as they are assembled

A fragment grows by text, by values and by whole fragments that are put behind
it. Writing what was put together is writing one part after the other, wherever
the statement stands by then, so a part can be put anywhere. What is written
depends on what was put there and in which order (`Assembly.tokens`), not on
the portions in which the text came, although these can leave different pieces:
a portion without characters makes a piece behind a value and none behind text.

Key definitions: `Assembly`, `Assembly.fragment`, `Assembly.tokens`, `Statement.Gains`,
`Fragment.Alternates`.
Key theorems: `Fragment.writeOn_append`, `Fragment.gains_writeOn`,
`Fragment.writeOn_eq_of_tokens`, `Fragment.Alternates.append`, `fragments_are_written_in_turn`.
-/

namespace FilmCatalog

/-! ## Writing one part after the other -/

namespace Fragment

/-- A piece that joins others is written behind them. -/
theorem foldl_addPiece (ps : List Piece) (p : Piece) (s : Statement) :
    (addPiece ps p).foldl writePiece s = writePiece (ps.foldl writePiece s) p := by
  fun_induction addPiece ps p generalizing s with
  | case1 p => rfl
  | case2 t u =>
    -- the two texts are written at once
    have hsql : s.sql ++ (t ++ u) = s.sql ++ t ++ u := (String.append_assoc ..).symm
    simp only [List.foldl_cons, List.foldl_nil, writePiece, hsql]
  | case3 q rest p _ ih =>
    rw [List.foldl_cons, List.foldl_cons]
    exact ih (writePiece s q)

/-- One fragment behind another is written behind it. -/
theorem writeOn_append (f g : Fragment) (s : Statement) :
    (f ++ g).writeOn s = g.writeOn (f.writeOn s) := by
  show (g.pieces.foldl addPiece f.pieces).foldl writePiece s =
    g.pieces.foldl writePiece (f.pieces.foldl writePiece s)
  generalize f.pieces = ps
  induction g.pieces generalizing ps with
  | nil => rfl
  | cons q qs ih => rw [List.foldl_cons, List.foldl_cons, ih, foldl_addPiece]

/-- What was put into two fragments in the same order is written in the same way. -/
theorem writeOn_eq_of_tokens {f g : Fragment} (h : f.tokens = g.tokens) (s : Statement) :
    f.writeOn s = g.writeOn s := by
  obtain ⟨hsql, hargs⟩ := f.writeOn_eq s
  obtain ⟨hsql', hargs'⟩ := g.writeOn_eq s
  rw [← h] at hsql' hargs'
  have htext : (f.writeOn s).sql = (g.writeOn s).sql :=
    String.toList_injective (hsql.trans hsql'.symm)
  have hvalues : (f.writeOn s).args = (g.writeOn s).args := hargs.trans hargs'.symm
  calc f.writeOn s = ⟨(f.writeOn s).sql, (f.writeOn s).args⟩ := rfl
    _ = ⟨(g.writeOn s).sql, (g.writeOn s).args⟩ := by rw [htext, hvalues]
    _ = g.writeOn s := rfl

theorem values_tokens (f : Fragment) : Token.values f.tokens = f.values := by
  unfold tokens values
  induction f.pieces with
  | nil => rfl
  | cons p ps ih =>
    rw [List.flatMap_cons, Token.values_append, ih]
    cases p with
    | sql t =>
      rw [Piece.tokens, Token.values_map_char]
      rfl
    | value v => rfl

end Fragment

/-! ## What a statement gains -/

/-- How a mark stands in a text. -/
def Mark.text : Mark → List Char
  | char c => [c]
  | placeholder n => '$' :: Nat.toDigits 10 n

/-- Whether a statement becomes another one when tokens are written behind it:
the text goes on with a mark for each token, the placeholders among them are
numbered on from the arguments that are there already, and each has the value
of its token as the argument of its number. -/
structure Statement.Gains (s : Statement) (ts : List Token) (s' : Statement) : Prop where
  args : s'.args = s.args ++ Token.values ts
  text : ∃ marks : List Mark,
    s'.sql.toList = s.sql.toList ++ marks.flatMap Mark.text ∧
    marks.filterMap Mark.number? = List.range' (s.args.length + 1) (Token.values ts).length ∧
    marks.mapM (Mark.token? s'.args) = some ts

theorem Token.written_eq_flatMap (n : ℕ) (ts : List Token) :
    written n ts = (marked n ts).flatMap Mark.text := by
  induction ts generalizing n with
  | nil => rfl
  | cons t ts ih =>
    cases t with
    | char c => rw [written, marked, List.flatMap_cons, ih, Mark.text, List.singleton_append]
    | bound v => rw [written, marked, List.flatMap_cons, ih, Mark.text]

/-- A statement gains what is in a fragment that is written behind it. -/
theorem Fragment.gains_writeOn (f : Fragment) (s : Statement) :
    s.Gains f.tokens (f.writeOn s) := by
  obtain ⟨hsql, hargs⟩ := f.writeOn_eq s
  refine ⟨hargs, Token.marked s.args.length f.tokens, ?_, ?_, ?_⟩
  · rw [hsql, Token.written_eq_flatMap]
  · exact Token.numbers_marked _ _
  · rw [hargs]
    exact Token.mapM_marked s.args f.tokens

/-! ## Text apart from text -/

/-- Whether a piece is text. -/
def Piece.isText : Piece → Bool
  | .sql _ => true
  | .value _ => false

/-- Whether two pieces are not both text. -/
def Piece.Apart (p q : Piece) : Prop := ¬(p.isText = true ∧ q.isText = true)

namespace Fragment

/-- Whether no text stands right behind another one. -/
def Alternates (f : Fragment) : Prop := f.pieces.IsChain Piece.Apart

/-- Only the last piece is looked at when one is added. -/
theorem addPiece_concat (front : List Piece) (q p : Piece) :
    addPiece (front ++ [q]) p = front ++ addPiece [q] p := by
  induction front with
  | nil => rfl
  | cons first rest ih =>
    have hcons : addPiece (first :: (rest ++ [q])) p = first :: addPiece (rest ++ [q]) p := by
      cases rest with
      | nil => cases first <;> rfl
      | cons second rest => cases first <;> rfl
    rw [List.cons_append, List.cons_append, hcons, ih]

/-- Behind one piece another one is added, or the two are text and become one. -/
theorem addPiece_singleton (q p : Piece) :
    (q.Apart p ∧ addPiece [q] p = [q, p]) ∨
      ∃ r : Piece, r.isText = q.isText ∧ addPiece [q] p = [r] := by
  cases q with
  | value v => exact .inl ⟨by simp [Piece.Apart, Piece.isText], rfl⟩
  | sql t =>
    cases p with
    | value v => exact .inl ⟨by simp [Piece.Apart, Piece.isText], rfl⟩
    | sql u => exact .inr ⟨.sql (t ++ u), rfl, rfl⟩

theorem isChain_addPiece {ps : List Piece} (h : ps.IsChain Piece.Apart) (p : Piece) :
    (addPiece ps p).IsChain Piece.Apart := by
  rcases List.eq_nil_or_concat ps with rfl | ⟨front, q, rfl⟩
  · exact .singleton p
  · rw [List.concat_eq_append] at h ⊢
    obtain ⟨hfront, -, hborder⟩ := List.isChain_append.1 h
    -- what stands in front of the last piece is kept apart from what becomes of it
    have hlast : ∀ x ∈ front.getLast?, x.Apart q := fun x hx => hborder x hx q rfl
    rw [addPiece_concat]
    rcases addPiece_singleton q p with ⟨hapart, heq⟩ | ⟨r, hkind, heq⟩
    · rw [heq]
      refine hfront.append (.cons_cons hapart (.singleton p)) fun x hx y hy => ?_
      obtain rfl : q = y := by simpa using hy
      exact hlast x hx
    · rw [heq]
      refine hfront.append (.singleton r) fun x hx y hy => ?_
      obtain rfl : r = y := by simpa using hy
      unfold Piece.Apart
      rw [hkind]
      exact hlast x hx

/-- What is put behind a fragment does not matter, since its text joins the last one. -/
theorem Alternates.append {f : Fragment} (h : f.Alternates) (g : Fragment) :
    (f ++ g).Alternates := by
  show (g.pieces.foldl addPiece f.pieces).IsChain Piece.Apart
  unfold Alternates at h
  revert h
  generalize f.pieces = ps
  induction g.pieces generalizing ps with
  | nil => exact fun h => h
  | cons q qs ih => exact fun h => ih _ (isChain_addPiece h q)

end Fragment

/-! ## Assemblies -/

/-- How a fragment is put together, from nothing on. -/
inductive Assembly where
  | start
  | push (front : Assembly) (text : String)
  | pushValue (front : Assembly) (v : SqlValue)
  | append (front back : Assembly)

namespace Assembly

/-- The fragment that is put together. -/
def fragment : Assembly → Fragment
  | start => Fragment.empty
  | push front text => front.fragment.push text
  | pushValue front v => front.fragment.pushValue v
  | append front back => front.fragment ++ back.fragment

/-- What was put there, in its order: every character of the text and every value. -/
def tokens : Assembly → List Token
  | start => []
  | push front text => front.tokens ++ text.toList.map .char
  | pushValue front v => front.tokens ++ [.bound v]
  | append front back => front.tokens ++ back.tokens

theorem tokens_fragment (a : Assembly) : a.fragment.tokens = a.tokens := by
  induction a with
  | start => rfl
  | push front text ih =>
    have hpush : (front.fragment.push text).tokens =
        front.fragment.tokens ++ (Piece.sql text).tokens := Fragment.flatMap_addPiece _ _
    rw [fragment, hpush, ih, tokens, Piece.tokens]
  | pushValue front v ih =>
    have hpush : (front.fragment.pushValue v).tokens =
        front.fragment.tokens ++ (Piece.value v).tokens := Fragment.flatMap_addPiece _ _
    rw [fragment, hpush, ih, tokens, Piece.tokens]
  | append front back ihf ihb => rw [fragment, Fragment.tokens_append, ihf, ihb, tokens]

theorem alternates_fragment (a : Assembly) : a.fragment.Alternates := by
  induction a with
  | start => exact .nil
  | push front text ih => exact Fragment.isChain_addPiece ih _
  | pushValue front v ih => exact Fragment.isChain_addPiece ih _
  | append front back ih _ => exact ih.append back.fragment

end Assembly

/-- However two fragments were put together and whatever was written before: one
behind the other is written as the one and then the other. The statement gains
the characters and values of both in their order, the values with the next
placeholders and as the next arguments. Two fragments of the same characters and
values are written in the same way, whatever the portions of their text were,
and none of them has text right behind text. -/
theorem fragments_are_written_in_turn (a b : Assembly) (s : Statement) :
    (a.fragment ++ b.fragment).writeOn s = b.fragment.writeOn (a.fragment.writeOn s) ∧
      ((a.fragment ++ b.fragment).writeOn s).args =
        s.args ++ (a.fragment.values ++ b.fragment.values) ∧
      s.Gains (a.tokens ++ b.tokens) ((a.fragment ++ b.fragment).writeOn s) ∧
      (a.tokens = b.tokens → a.fragment.writeOn s = b.fragment.writeOn s) ∧
      a.fragment.Alternates ∧ (a.fragment ++ b.fragment).Alternates := by
  have hgains : s.Gains (a.tokens ++ b.tokens) ((a.fragment ++ b.fragment).writeOn s) := by
    have h := (a.fragment ++ b.fragment).gains_writeOn s
    rwa [Fragment.tokens_append, a.tokens_fragment, b.tokens_fragment] at h
  have hvalues : Token.values (a.tokens ++ b.tokens) = a.fragment.values ++ b.fragment.values := by
    rw [Token.values_append, ← a.tokens_fragment, ← b.tokens_fragment, Fragment.values_tokens,
      Fragment.values_tokens]
  refine ⟨Fragment.writeOn_append _ _ s, ?_, hgains, fun h => ?_, a.alternates_fragment, ?_⟩
  · rw [hgains.args, hvalues]
  · apply Fragment.writeOn_eq_of_tokens
    rw [a.tokens_fragment, b.tokens_fragment, h]
  · exact a.alternates_fragment.append b.fragment

/-- A condition whose text comes in two portions, and an empty one behind the value. -/
def portionedCondition : Assembly :=
  .push (.pushValue (.push (.push .start "p.width") " >= ") (.int8 640)) ""

/-- The same condition in one portion. -/
def wholeCondition : Assembly := .pushValue (.push .start "p.width >= ") (.int8 640)

/-- The two have different pieces and are written alike. -/
theorem portions_are_not_seen :
    portionedCondition.tokens = wholeCondition.tokens ∧
      portionedCondition.fragment ≠ wholeCondition.fragment ∧
      portionedCondition.fragment.writeOn ⟨"p.height < $1 AND ", [.int8 480]⟩ =
        wholeCondition.fragment.writeOn ⟨"p.height < $1 AND ", [.int8 480]⟩ := by
  have htokens : portionedCondition.tokens = wholeCondition.tokens := by decide
  obtain ⟨-, -, -, hsame, -⟩ := fragments_are_written_in_turn portionedCondition wholeCondition
    ⟨"p.height < $1 AND ", [.int8 480]⟩
  exact ⟨htokens, by decide, hsame htokens⟩

end FilmCatalog
