import Sprig.Tree.Render
import Sprig.Proofs.Grammar.Completeness
import Sprig.Proofs.Grammar.Origin
import Sprig.Proofs.Token.Spelling

/-!
The rendering of a program as source text.

A tree without strings, conditionals, functions and blocks is rendered as text for itself, provided
that its names are words and its integers are not negative. Every tree that was read is so, since
its leaves are texts of tokens. `Expr.tokens` are the tokens of the rendering: the text is read as
these, and they spell the tree, because all operators and indices stand between parentheses and a
call needs none.

Between two statements nothing is rendered. So only the last one may lack the `;` that ends a
binding and a return.
-/

namespace Sprig

open Text Token Writing

mutual

/-- The expression contains no string, conditional or function. -/
def Expr.isPlain : Expr → Bool
  | .ident _ | .int _ | .bool _ => true
  | .str _ | .cond _ _ _ | .function _ _ => false
  | .array items => Expr.arePlain items
  | .unary _ operand => operand.isPlain
  | .binary _ left right => left.isPlain && right.isPlain
  | .call callee args => callee.isPlain && Expr.arePlain args
  | .index subject position => subject.isPlain && position.isPlain
termination_by structural e => e

def Expr.arePlain : List Expr → Bool
  | [] => true
  | e :: es => e.isPlain && Expr.arePlain es
termination_by structural es => es

end

/-- The statement is no block and contains no string, conditional or function. -/
def Stmt.isPlain : Stmt → Bool
  | .bind _ value | .ret value | .expr value => value.isPlain
  | .block _ => false

/-- The statement is a binding or a return, which are rendered with a `;`. -/
def Stmt.isClosed : Stmt → Bool
  | .bind _ _ | .ret _ => true
  | .expr _ | .block _ => false

mutual

/-- The tokens that a plain expression is rendered as. -/
def Expr.tokens : Expr → List Token
  | .ident name => [⟨.ident, name⟩]
  | .int value => [⟨.int, decimal value⟩]
  | .bool value => [.word (if value then "true" else "false")]
  | .array items => .symbol .lbracket :: (Expr.itemTokens items ++ [.symbol .rbracket])
  | .unary op operand =>
      .symbol .lparen :: .symbol op.kind :: (operand.tokens ++ [.symbol .rparen])
  | .binary op left right =>
      .symbol .lparen :: (left.tokens ++ .symbol op.kind :: (right.tokens ++ [.symbol .rparen]))
  | .call callee args =>
      callee.tokens ++ .symbol .lparen :: (Expr.itemTokens args ++ [.symbol .rparen])
  | .index subject position =>
      .symbol .lparen :: (subject.tokens ++ .symbol .lbracket ::
        (position.tokens ++ [.symbol .rbracket, .symbol .rparen]))
  | .str _ | .cond _ _ _ | .function _ _ => []
termination_by structural e => e

def Expr.itemTokens : List Expr → List Token
  | [] => []
  | e :: es => e.tokens ++ Expr.moreTokens es
termination_by structural es => es

/-- The tokens of further items, each behind a comma. -/
def Expr.moreTokens : List Expr → List Token
  | [] => []
  | e :: es => .symbol .comma :: (e.tokens ++ Expr.moreTokens es)
termination_by structural es => es

end

/-- The tokens that a plain statement is rendered as. -/
def Stmt.tokens : Stmt → List Token
  | .bind name value =>
      .word "let" :: ⟨.ident, name⟩ :: .symbol .assign :: (value.tokens ++ [.symbol .semicolon])
  | .ret value => .word "return" :: (value.tokens ++ [.symbol .semicolon])
  | .expr value => value.tokens
  | .block _ => []

namespace Text

/-- A run of digits is read without a sign. -/
theorem readSigned_of_digits {c : Char} {cs : List Char} (hd : ∀ a ∈ c :: cs, a.isDigit) :
    readSigned? (c :: cs) = some (Nat.ofDigitChars 10 (c :: cs) 0 : Int) := by
  have hc : c.isDigit := hd c List.mem_cons_self
  have hall : (c :: cs).all Char.isDigit := List.all_eq_true.mpr hd
  unfold readSigned?
  split
  · next heq => rw [(List.cons.inj heq).1] at hc; cases hc
  · next heq => rw [(List.cons.inj heq).1] at hc; cases hc
  · rw [readDigits?, if_pos ⟨List.cons_ne_nil c cs, hall⟩]
    rfl

theorem nonneg_of_readInt64 {c : Char} {cs : List Char} {v : Int64}
    (hd : ∀ a ∈ c :: cs, a.isDigit) (h : readInt64? (String.ofList (c :: cs)) = some v) :
    0 ≤ v.toInt := by
  rw [readInt64?, String.toList_ofList, readSigned_of_digits hd, Option.bind_some] at h
  rw [toInt_of_fit? h]
  exact Int.natCast_nonneg _

/-- The numeral of a natural number is a run of digits and is read as that number. -/
theorem decimal_of_nonneg {v : Int64} (h : 0 ≤ v.toInt) :
    ∃ c cs, decimal v = String.ofList (c :: cs) ∧ (∀ a ∈ c :: cs, a.isDigit) ∧
      readInt64? (decimal v) = some v := by
  obtain ⟨n, hn⟩ := Int.eq_ofNat_of_zero_le h
  have hdecimal : decimal v = String.ofList (Nat.toDigits 10 n) := by
    rw [decimal, hn, ← String.toList_inj, String.toList_ofList]
    exact Nat.toList_repr
  obtain ⟨c, cs, hcs⟩ := List.exists_cons_of_ne_nil (Nat.toDigits_ne_nil : Nat.toDigits 10 n ≠ [])
  have hd : ∀ a ∈ c :: cs, a.isDigit := by
    intro a ha
    rw [← hcs] at ha
    exact Nat.isDigit_of_mem_toDigits (by decide) (by decide) ha
  refine ⟨c, cs, by rw [hdecimal, hcs], hd, ?_⟩
  rw [readInt64?, hdecimal, String.toList_ofList, hcs, readSigned_of_digits hd, Option.bind_some,
    ← hcs, Nat.ofDigitChars_toDigits (by decide) (by decide), ← fit?_toInt v, hn]

/-- Further texts, each behind a comma. -/
def more : List String → List Char
  | [] => []
  | s :: ss => ',' :: ' ' :: (s.toList ++ more ss)

theorem toList_intercalate (s : String) (ss : List String) :
    (", ".intercalate (s :: ss)).toList = s.toList ++ more ss := by
  induction ss generalizing s with
  | nil => simp [more]
  | cons t ts ih =>
      have hcons := ih t
      rw [String.toList_intercalate] at hcons ⊢
      rw [List.map_cons, List.map_cons, List.intercalate_cons_cons, more, ← hcons,
        List.append_assoc]
      rfl

end Text

namespace Token

variable {r : List Char}

/-- Neither a word nor a numeral goes on with this text. -/
def Clear (r : List Char) : Prop := ∀ c ∈ r.head?, isWordChar c = false ∧ c.isDigit = false

theorem clear_cons {c : Char} (hw : isWordChar c = false) (hd : c.isDigit = false) :
    Clear (c :: r) := by
  intro a ha
  cases ha
  exact ⟨hw, hd⟩

theorem clear_more (ss : List String) (hr : Clear r) : Clear (Text.more ss ++ r) := by
  cases ss with
  | nil => exact hr
  | cons s ss => exact clear_cons rfl rfl

theorem stream_symbol (c : Char) {k : Kind} (hc : Kind.ofSymbol? c = some k)
    (hk : ∀ a, k.takes a = false) (r : List Char) : stream (c :: r) = symbol k :: stream r := by
  obtain ⟨hsym, hlabel, -⟩ := Kind.isSymbol_of_ofSymbol hc
  have h := (WellFormed.symbol hsym).stream (r := r) fun a _ => hk a
  rwa [spelling_symbol hsym, hlabel] at h

theorem stream_word {c : Char} {cs : List Char} (h : (c :: cs).all isWordChar) (hr : Clear r) :
    stream (c :: cs ++ r) = word (String.ofList (c :: cs)) :: stream r := by
  have hw := (WellFormed.word (List.all_eq_true.mp h)).stream (r := r) fun a ha =>
    (Kind.takes_of_isWord (Kind.isWord_ofWord _) a).trans (hr a ha).1
  rwa [spelling_word] at hw

theorem stream_name {name : String} (h : WellFormed ⟨.ident, name⟩) (hr : Clear r) :
    stream (name.toList ++ r) = ⟨.ident, name⟩ :: stream r :=
  h.stream fun c hc => (hr c hc).1

theorem stream_assign (r : List Char) : stream ('=' :: ' ' :: r) = symbol .assign :: stream r := by
  have hspace : (symbol .assign).Apart (' ' :: r) := fun c hc => by cases hc; rfl
  rw [← stream_space r]
  exact (WellFormed.symbol (k := .assign) rfl).stream hspace

end Token

theorem UnaryOp.stream_symbol (op : UnaryOp) {r : List Char} (hr : ∀ c ∈ r.head?, c ≠ '=') :
    stream (op.symbol.toList ++ r) = Token.symbol op.kind :: stream r := by
  cases op with
  | not =>
      have hbang : (Token.symbol .bang).Apart r := fun c hc => beq_eq_false_iff_ne.mpr (hr c hc)
      exact (WellFormed.symbol (k := .bang) rfl).stream hbang
  | negate => exact Token.stream_symbol '-' rfl (fun _ => rfl) r

theorem BinaryOp.stream_symbol (op : BinaryOp) (r : List Char) :
    stream (' ' :: (op.symbol.toList ++ ' ' :: r)) = Token.symbol op.kind :: stream r := by
  have hsym : op.kind.isSymbol ∧ ∀ c, op.kind.takes c = false := by
    cases op <;> exact ⟨rfl, fun _ => rfl⟩
  have hlabel : op.symbol.toList = (Token.symbol op.kind).spelling := by cases op <;> rfl
  rw [stream_space, hlabel, (WellFormed.symbol hsym.1).stream fun c _ => hsym.2 c, stream_space]

namespace Expr

/-- The integers that are read from a text are rendered as numerals. -/
theorem decimal_of_madeOf {value : Int64} (h : (Expr.int value).MadeOf WellFormed) :
    ∃ c cs, decimal value = String.ofList (c :: cs) ∧ (∀ a ∈ c :: cs, a.isDigit) ∧
      readInt64? (decimal value) = some value := by
  obtain ⟨digits, hw, hv⟩ := h
  obtain ⟨c, cs, rfl, hd⟩ := hw.digits
  exact decimal_of_nonneg (nonneg_of_readInt64 hd hv)

/-- The text of further items, each behind a comma. -/
def moreText : List Expr → List Char
  | [] => []
  | e :: es => ',' :: ' ' :: (e.render.toList ++ moreText es)

theorem moreText_eq (es : List Expr) : moreText es = Text.more (renderAll es) := by
  induction es with
  | nil => rfl
  | cons e es ih => rw [moreText, renderAll, Text.more, ih]

theorem toList_items (e : Expr) (es : List Expr) :
    (", ".intercalate (renderAll (e :: es))).toList = e.render.toList ++ moreText es := by
  rw [renderAll, Text.toList_intercalate, moreText_eq]

theorem clear_moreText (es : List Expr) {r : List Char} (hr : Clear r) :
    Clear (moreText es ++ r) := by
  rw [moreText_eq]
  exact clear_more _ hr

/-- No rendering starts in such a way that an operator in front of it would become another one. -/
theorem head_render : ∀ e : Expr, e.MadeOf WellFormed → e.isPlain →
    ∃ c cs, e.render.toList = c :: cs ∧ c ≠ '='
  | .ident name, hm, _ => by
      obtain ⟨c, cs, hname, hw⟩ := hm.letters
      exact ⟨c, cs, by rw [render, hname, String.toList_ofList], by rintro rfl; cases hw⟩
  | .int value, hm, _ => by
      obtain ⟨c, cs, hdecimal, hd, -⟩ := decimal_of_madeOf hm
      refine ⟨c, cs, by rw [render, hdecimal, String.toList_ofList], ?_⟩
      rintro rfl
      cases hd '=' List.mem_cons_self
  | .bool value, _, _ => by cases value <;> exact ⟨_, _, rfl, by decide⟩
  | .array _, _, _ | .unary _ _, _, _ | .binary _ _ _, _, _ | .index _ _, _, _ => by
      simp only [render, String.toList_append, List.append_assoc]
      exact ⟨_, _, rfl, by decide⟩
  | .call callee args, hm, hp => by
      obtain ⟨c, cs, hc, hne⟩ := head_render callee hm.1 (Bool.and_eq_true_iff.mp hp).1
      simp only [render, String.toList_append, List.append_assoc, hc]
      exact ⟨c, _, rfl, hne⟩

mutual

/-- The rendering of a plain expression is read as its tokens. -/
theorem stream_render : ∀ (e : Expr) (r : List Char), e.MadeOf WellFormed → e.isPlain → Clear r →
    stream (e.render.toList ++ r) = e.tokens ++ stream r
  | .ident _, _, hm, _, hr => stream_name hm hr
  | .int value, r, hm, _, hr => by
      obtain ⟨c, cs, hdecimal, hd, -⟩ := decimal_of_madeOf hm
      rw [render, tokens, hdecimal]
      exact (WellFormed.int hd).stream fun c hc => (hr c hc).2
  | .bool value, r, _, _, hr => by
      cases value <;> exact stream_word rfl hr
  | .array items, r, hm, hp, hr => by
      have htext : (Expr.array items).render.toList ++ r =
          '[' :: ((", ".intercalate (renderAll items)).toList ++ ']' :: r) := by
        simp [render]
      rw [htext, stream_symbol '[' rfl (fun _ => rfl),
        stream_items items _ hm hp (clear_cons rfl rfl), stream_symbol ']' rfl (fun _ => rfl),
        tokens]
      simp
  | .unary op operand, r, hm, hp, hr => by
      have htext : (Expr.unary op operand).render.toList ++ r =
          '(' :: (op.symbol.toList ++ (operand.render.toList ++ ')' :: r)) := by
        simp [render]
      obtain ⟨c, cs, hc, hne⟩ := head_render operand hm hp
      have hnext : ∀ a ∈ (operand.render.toList ++ ')' :: r).head?, a ≠ '=' := by
        rw [hc]
        intro a ha
        cases ha
        exact hne
      rw [htext, stream_symbol '(' rfl (fun _ => rfl), op.stream_symbol hnext,
        stream_render operand _ hm hp (clear_cons rfl rfl), stream_symbol ')' rfl (fun _ => rfl),
        tokens]
      simp
  | .binary op left right, r, hm, hp, hr => by
      have htext : (Expr.binary op left right).render.toList ++ r =
          '(' :: (left.render.toList ++
            ' ' :: (op.symbol.toList ++ ' ' :: (right.render.toList ++ ')' :: r))) := by
        simp [render]
      obtain ⟨hpl, hpr⟩ := Bool.and_eq_true_iff.mp hp
      rw [htext, stream_symbol '(' rfl (fun _ => rfl),
        stream_render left _ hm.1 hpl (clear_cons rfl rfl), op.stream_symbol,
        stream_render right _ hm.2 hpr (clear_cons rfl rfl), stream_symbol ')' rfl (fun _ => rfl),
        tokens]
      simp
  | .call callee args, r, hm, hp, hr => by
      have htext : (Expr.call callee args).render.toList ++ r =
          callee.render.toList ++
            '(' :: ((", ".intercalate (renderAll args)).toList ++ ')' :: r) := by
        simp [render]
      obtain ⟨hpc, hpa⟩ := Bool.and_eq_true_iff.mp hp
      rw [htext, stream_render callee _ hm.1 hpc (clear_cons rfl rfl),
        stream_symbol '(' rfl (fun _ => rfl), stream_items args _ hm.2 hpa (clear_cons rfl rfl),
        stream_symbol ')' rfl (fun _ => rfl), tokens]
      simp
  | .index subject position, r, hm, hp, hr => by
      have htext : (Expr.index subject position).render.toList ++ r =
          '(' :: (subject.render.toList ++ '[' :: (position.render.toList ++ ']' :: ')' :: r)) := by
        simp [render]
      obtain ⟨hps, hpp⟩ := Bool.and_eq_true_iff.mp hp
      rw [htext, stream_symbol '(' rfl (fun _ => rfl),
        stream_render subject _ hm.1 hps (clear_cons rfl rfl), stream_symbol '[' rfl (fun _ => rfl),
        stream_render position _ hm.2 hpp (clear_cons rfl rfl),
        stream_symbol ']' rfl (fun _ => rfl), stream_symbol ')' rfl (fun _ => rfl), tokens]
      simp

theorem stream_items : ∀ (es : List Expr) (r : List Char), Expr.MadeOfAll WellFormed es →
    Expr.arePlain es → Clear r →
    stream ((", ".intercalate (renderAll es)).toList ++ r) = itemTokens es ++ stream r
  | [], r, _, _, _ => rfl
  | e :: es, r, hm, hp, hr => by
      obtain ⟨hpe, hpes⟩ := Bool.and_eq_true_iff.mp hp
      rw [toList_items, List.append_assoc, stream_render e _ hm.1 hpe (clear_moreText es hr),
        stream_more es r hm.2 hpes hr, itemTokens, List.append_assoc]

theorem stream_more : ∀ (es : List Expr) (r : List Char), Expr.MadeOfAll WellFormed es →
    Expr.arePlain es → Clear r → stream (moreText es ++ r) = moreTokens es ++ stream r
  | [], r, _, _, _ => rfl
  | e :: es, r, hm, hp, hr => by
      obtain ⟨hpe, hpes⟩ := Bool.and_eq_true_iff.mp hp
      rw [moreText, List.cons_append, List.cons_append, List.append_assoc,
        stream_symbol ',' rfl (fun _ => rfl), stream_space,
        stream_render e _ hm.1 hpe (clear_moreText es hr), stream_more es r hm.2 hpes hr,
        moreTokens, List.cons_append, List.append_assoc]

end

/-- An operator with its operands. -/
def isOperation : Expr → Bool
  | .unary _ _ | .binary _ _ _ => true
  | _ => false

/-- Nothing else ever has to stand between parentheses. -/
theorem not_groups {e : Expr} (h : e.isOperation = false) (pos : Position) : ¬ pos.Groups e := by
  cases e with
  | unary | binary => cases h
  | _ => cases pos <;> exact id

mutual

/-- The tokens of a plain expression spell it, wherever it stands. -/
theorem written_tokens : ∀ (e : Expr) (pos : Position), e.MadeOf WellFormed → e.isPlain →
    Written true pos e e.tokens
  | .ident name, pos, _, _ =>
      .bare (not_groups rfl pos) (.ident (t := ⟨.ident, name⟩) rfl)
  | .int value, pos, hm, _ => by
      obtain ⟨-, -, -, -, hread⟩ := decimal_of_madeOf hm
      exact .bare (not_groups rfl pos) (.int rfl hread)
  | .bool value, pos, _, _ =>
      .bare (not_groups rfl pos) (.bool (by cases value <;> decide))
  | .array items, pos, hm, hp =>
      .bare (not_groups rfl pos) (.array rfl (items_tokens items hm hp) rfl)
  | .unary op operand, _, hm, hp =>
      .group rfl (.bare id (.unary rfl (written_tokens operand .operand hm hp))) rfl
  | .binary op left right, pos, hm, hp => by
      obtain ⟨hpl, hpr⟩ := Bool.and_eq_true_iff.mp hp
      have h : Written true pos (.binary op left right) _ :=
        .group (o := symbol .lparen) (z := symbol .rparen) rfl
          (.bare id (.binary (t := symbol op.kind) (written_tokens left _ hm.1 hpl) rfl
            (written_tokens right _ hm.2 hpr))) rfl
      rwa [List.append_assoc] at h
  | .call callee args, pos, hm, hp => by
      obtain ⟨hpc, hpa⟩ := Bool.and_eq_true_iff.mp hp
      exact .bare (not_groups rfl pos)
        (.call (written_tokens callee _ hm.1 hpc) rfl (items_tokens args hm.2 hpa) rfl)
  | .index subject position, pos, hm, hp => by
      obtain ⟨hps, hpp⟩ := Bool.and_eq_true_iff.mp hp
      have h : Written true pos (.index subject position) _ :=
        .group (o := symbol .lparen) (z := symbol .rparen) rfl
          (.bare id (.index (o := symbol .lbracket) (z := symbol .rbracket)
            (written_tokens subject _ hm.1 hps) rfl (written_tokens position _ hm.2 hpp) rfl)) rfl
      rwa [List.append_assoc, List.cons_append, List.append_assoc] at h

theorem items_tokens : ∀ es : List Expr, Expr.MadeOfAll WellFormed es → Expr.arePlain es →
    Items true es (itemTokens es)
  | [], _, _ => .nil
  | e :: es, hm, hp =>
      .cons (written_tokens e .free hm.1 (Bool.and_eq_true_iff.mp hp).1)
        (more_tokens es hm.2 (Bool.and_eq_true_iff.mp hp).2)

theorem more_tokens : ∀ es : List Expr, Expr.MadeOfAll WellFormed es → Expr.arePlain es →
    MoreItems true es (moreTokens es)
  | [], _, _ => .nil
  | e :: es, hm, hp =>
      .cons rfl (written_tokens e .free hm.1 (Bool.and_eq_true_iff.mp hp).1)
        (more_tokens es hm.2 (Bool.and_eq_true_iff.mp hp).2)

end

end Expr

namespace Stmt

/-- The rendering of a plain statement is read as its tokens. Unless it ends in a `;`, the text
behind it must not be taken for a part of it. -/
theorem stream_render {s : Stmt} {r : List Char} (hm : s.MadeOf WellFormed) (hp : s.isPlain)
    (hr : s.isClosed ∨ Clear r) : stream (s.render.toList ++ r) = s.tokens ++ stream r := by
  cases s with
  | bind name value =>
      have htext : (Stmt.bind name value).render.toList ++ r =
          ['l', 'e', 't'] ++ ' ' :: (name.toList ++
            ' ' :: '=' :: ' ' :: (value.render.toList ++ ';' :: r)) := by
        simp [render]
      rw [htext, stream_word rfl (clear_cons rfl rfl), stream_space,
        stream_name hm.1 (clear_cons rfl rfl), stream_space, stream_assign,
        value.stream_render _ hm.2 hp (clear_cons rfl rfl), stream_symbol ';' rfl (fun _ => rfl),
        tokens]
      simp
  | ret value =>
      have htext : (Stmt.ret value).render.toList ++ r =
          ['r', 'e', 't', 'u', 'r', 'n'] ++ ' ' :: (value.render.toList ++ ';' :: r) := by
        simp [render]
      rw [htext, stream_word rfl (clear_cons rfl rfl), stream_space,
        value.stream_render _ hm hp (clear_cons rfl rfl), stream_symbol ';' rfl (fun _ => rfl),
        tokens]
      simp
  | expr value => exact value.stream_render r hm hp (hr.resolve_left Bool.false_ne_true)
  | block body => cases hp

theorem stated_tokens {s : Stmt} (hm : s.MadeOf WellFormed) (hp : s.isPlain) (hs : s.isClosed) :
    Stated true s s.tokens := by
  cases s with
  | bind name value =>
      exact .bind (t := ⟨.ident, name⟩) rfl rfl rfl (value.written_tokens .free hm.2 hp)
        (.semicolon rfl)
  | ret value => exact .ret rfl (value.written_tokens .free hm hp) (.semicolon rfl)
  | expr | block => cases hs

/-- A rendered statement starts with a token that ends no list of statements. -/
theorem tokens_not_ends {s : Stmt} (hm : s.MadeOf WellFormed) (hp : s.isPlain) (x : List Token) :
    Nested.endsBlock (kindOf (s.tokens ++ x)) = false := by
  cases s with
  | bind | ret => exact (stated_tokens hm hp rfl).not_ends x
  | expr value =>
      exact (Kind.statement_of_starts ((value.written_tokens .free hm hp).starts x)).2.2.2
  | block body => cases hp

theorem tokens_ne_nil {s : Stmt} (hm : s.MadeOf WellFormed) (hp : s.isPlain) : s.tokens ≠ [] := by
  intro h
  have hends := tokens_not_ends hm hp []
  rw [h] at hends
  cases hends

theorem closed_cons {s : Stmt} {ss : Block} (h : (s :: ss).dropLast.all Stmt.isClosed) :
    (s.isClosed ∨ ss = []) ∧ ss.dropLast.all Stmt.isClosed := by
  cases ss with
  | nil => exact ⟨.inr rfl, rfl⟩
  | cons t ts => exact (Bool.and_eq_true_iff.mp h).imp_left .inl

/-- Rendered statements are read as their tokens, if only the last one may lack its `;`. -/
theorem stream_renderAll {ss : Block} (hm : Stmt.MadeOfAll WellFormed ss)
    (hp : ss.all Stmt.isPlain) (hs : ss.dropLast.all Stmt.isClosed) :
    stream (Stmt.renderAll ss).toList = ss.flatMap Stmt.tokens ++ [eof] := by
  induction ss with
  | nil => exact stream_of_end rfl
  | cons s ss ih =>
      obtain ⟨hps, hpss⟩ := Bool.and_eq_true_iff.mp hp
      rw [Stmt.renderAll, String.toList_append, List.flatMap_cons, List.append_assoc]
      obtain ⟨hlast, hss⟩ := closed_cons hs
      have hr : s.isClosed ∨ Clear (Stmt.renderAll ss).toList := by
        refine hlast.imp_right ?_
        rintro rfl c hc
        cases hc
      rw [stream_render hm.1 hps hr, ih hm.2 hpss hss]

end Stmt

namespace Nested

variable {p : Nested} {n m : Nat} {c : Cursor} {x : List Token}

/-- In front of the end of the tokens an expression needs no `;` to be a statement. -/
theorem statement_reads_last {e : Expr} {w : List Token} (hp : p.Complete n)
    (hw : Written true .free e w) (hn : w.length < n) (hx : kindOf x = .eof)
    (hc : c.rest = w ++ x) : p.statement.Reads c (.expr e) x := by
  have hk : startsOperand c.kind := by
    rw [Cursor.kind, hc]
    exact hw.starts x
  obtain ⟨hlet, hret, hbrace, -⟩ := Kind.statement_of_starts hk
  rw [Parser.Reads, p.statement_of_other hlet hret hbrace]
  refine (hp.expr hw hn .free (by rw [hx]; decide) (by rw [hx]; decide) hc).bind fun d hd => ?_
  refine ⟨d, ?_, hd, rfl⟩
  have hpeek : d.peek ≠ .semicolon := by rw [Cursor.peek, hd, hx]; decide
  rw [Parser.bind_apply, Parser.skip, if_neg hpeek]
  rfl

/-- A rendered statement is read, in front of the end of the tokens also without its `;`. -/
theorem statement_reads_tokens {s : Stmt} (hp : p.Complete n) (hm : s.MadeOf WellFormed)
    (hs : s.isPlain) (hn : s.tokens.length < n) (hx : s.isClosed ∨ kindOf x = .eof)
    (hc : c.rest = s.tokens ++ x) : p.statement.Reads c s x := by
  cases s with
  | bind | ret => exact statement_reads hp (Stmt.stated_tokens hm hs rfl) hn hc
  | expr value =>
      exact statement_reads_last hp (value.written_tokens .free hm hs) hn
        (hx.resolve_left Bool.false_ne_true) hc
  | block body => cases hs

theorem statements_reads_tokens {ss : Block} (hp : p.Complete n)
    (hm : Stmt.MadeOfAll WellFormed ss) (hs : ss.all Stmt.isPlain)
    (hclosed : ss.dropLast.all Stmt.isClosed) (hn : (ss.flatMap Stmt.tokens).length < n)
    (hl : (ss.flatMap Stmt.tokens).length < m) (hc : c.rest = ss.flatMap Stmt.tokens ++ [eof]) :
    ∃ d, p.statements endsProgram 0 m c = (ss, d) ∧ d.diagnostics = c.diagnostics := by
  induction ss generalizing m c with
  | nil =>
      have hk : endsProgram c.kind := by rw [Cursor.kind, hc]; rfl
      exact ⟨c, p.statements_of_stop hk, rfl⟩
  | cons s ss ih =>
      obtain ⟨hps, hpss⟩ := Bool.and_eq_true_iff.mp hs
      have hne := List.length_pos_iff.2 (Stmt.tokens_ne_nil hm.1 hps)
      rw [List.flatMap_cons, List.length_append] at hn hl
      rw [List.flatMap_cons, List.append_assoc] at hc
      obtain ⟨m, rfl⟩ : ∃ k, m = k + 1 := ⟨m - 1, by omega⟩
      have hk : endsProgram c.kind = false := by
        have hends := Stmt.tokens_not_ends hm.1 hps (ss.flatMap Stmt.tokens ++ [eof])
        rw [← hc] at hends
        exact (Bool.or_eq_false_iff.mp hends).2
      obtain ⟨hlast, hclosed⟩ := Stmt.closed_cons hclosed
      have hx : s.isClosed ∨ kindOf (ss.flatMap Stmt.tokens ++ [eof]) = .eof := by
        refine hlast.imp_right ?_
        rintro rfl
        rfl
      obtain ⟨d, hd, hy, hdiag⟩ := statement_reads_tokens hp hm.1 hps (by omega) hx hc
      obtain ⟨f, hf, hdiag'⟩ := ih (m := m) (c := d.advance) hm.2 hpss hclosed (by omega)
        (by omega) (by rw [d.advance_rest, hy])
      refine ⟨f, ?_, (hdiag'.trans d.advance_diagnostics).trans hdiag⟩
      rw [p.statements_of_read hk hd, hf]

end Nested

/-- A plain program made of readable names and literals is rendered as source text for itself. -/
theorem Program.ofText_render_of_madeOf {p : Program} (hm : Stmt.MadeOfAll WellFormed p.statements)
    (hp : p.statements.all Stmt.isPlain) (hs : p.statements.dropLast.all Stmt.isClosed) :
    Parsed.ofText p.render = ⟨p, #[]⟩ := by
  have htokens : Token.ofText p.render = p.statements.flatMap Stmt.tokens ++ [eof] :=
    Stmt.stream_renderAll hm hp hs
  have hlength : (p.statements.flatMap Stmt.tokens).length <
      (p.statements.flatMap Stmt.tokens ++ [eof]).length + 1 := by
    rw [List.length_append]
    omega
  obtain ⟨d, hd, hdiag⟩ := Nested.statements_reads_tokens (Nested.complete_within _) hm hp hs
    hlength hlength (c := Cursor.start (p.statements.flatMap Stmt.tokens ++ [eof])) rfl
  rw [Parsed.ofText, htokens, Parsed.ofTokens_of_statements hd, hdiag]
  rfl

/-- The names and literals that are read from a text are words and runs of digits. -/
theorem Parsed.madeOf_ofText (source : String) :
    Stmt.MadeOfAll WellFormed (ofText source).program.statements := by
  obtain ⟨ts, hts, hwell⟩ := stream_wellFormed source.toList
  refine madeOf_ofTokens fun t ht hne => ?_
  rw [Token.ofText, hts, List.mem_append, List.mem_singleton] at ht
  exact ht.elim (hwell t) fun he => absurd (congrArg Token.kind he) hne

/-- Whatever the source text is, the program that is read from it is rendered as source text for
itself, if it is plain and all its statements but the last are bindings and returns. -/
theorem ofText_render (source : String)
    (plain : (Parsed.ofText source).program.statements.all Stmt.isPlain)
    (closed : (Parsed.ofText source).program.statements.dropLast.all Stmt.isClosed) :
    Parsed.ofText (Parsed.ofText source).program.render = ⟨(Parsed.ofText source).program, #[]⟩ :=
  Program.ofText_render_of_madeOf (Parsed.madeOf_ofText source) plain closed

/-- From `let a = -b(1, 007)[2] + [!c];; a` the stray `;` is left out. The rest is rendered as
`let a = ((-(b(1, 7)[2])) + [(!c)]);a`, which is read as the same program. -/
theorem ofText_render_malformed :
    let p := (Parsed.ofText "let a = -b(1, 007)[2] + [!c];; a").program
    p.render = "let a = ((-(b(1, 7)[2])) + [(!c)]);a" ∧ Parsed.ofText p.render = ⟨p, #[]⟩ := by
  intro p
  exact ⟨by decide +kernel, ofText_render _ (by decide +kernel) (by decide +kernel)⟩

end Sprig
