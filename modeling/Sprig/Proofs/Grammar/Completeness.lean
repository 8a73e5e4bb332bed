import Sprig.Grammar.Parsed
import Sprig.Proofs.Grammar.Writing

/-!
Whatever is written as the grammar asks is read back as it was meant.

Every spelling of a program in which a `;` ends each statement is read as that program, without a
diagnostic. The induction is on the bound for nesting: a construct reads its parts by the parsers
for one level less. The left operands of an expression are not parts in this sense. They are read
by the loop that goes on to read the expression itself, so `Nested.Climbs` says how far that loop
has come: it holds the expression read so far and has used up at most as many turns as tokens.
-/

namespace Sprig

open Token Writing Sprig.Parser

/-- From `c` the parser reads `a`, records nothing, and stops on the last token before `x`. -/
def Parser.Reads {α : Type} (p : Parser α) (c : Cursor) (a : α) (x : List Token) : Prop :=
  ∃ d, p c = (some a, d) ∧ d.rest.tail = x ∧ d.diagnostics = c.diagnostics

namespace Parser.Reads

variable {α β : Type} {p : Parser α} {f : α → Parser β} {c : Cursor} {a : α} {b : β}
  {x y : List Token}

theorem pure (h : c.rest.tail = x) : (Pure.pure a : Parser α).Reads c a x := ⟨c, rfl, h, rfl⟩

theorem bind (h : p.Reads c a y) (k : ∀ d, d.rest.tail = y → (f a).Reads d b x) :
    (p >>= f).Reads c b x := by
  obtain ⟨d, hd, hy, hdiag⟩ := h
  obtain ⟨e, he, hx, hdiag'⟩ := k d hy
  refine ⟨e, ?_, hx, hdiag'.trans hdiag⟩
  rw [bind_apply, hd]
  exact he

/-- A parser that goes on to the next token. -/
theorem step {q : Parser Unit} {f : Unit → Parser β} (hq : q c = (some (), c.advance))
    (h : (f ()).Reads c.advance b x) : (q >>= f).Reads c b x := by
  obtain ⟨d, hd, hx, hdiag⟩ := h
  refine ⟨d, ?_, hx, hdiag.trans c.advance_diagnostics⟩
  rw [bind_apply, hq]
  exact hd

theorem advance {f : Unit → Parser β} (h : (f ()).Reads c.advance b x) :
    (Parser.advance >>= f).Reads c b x :=
  step rfl h

theorem kind {f : Kind → Parser β} {k : Kind} (hk : c.kind = k) (h : (f k).Reads c b x) :
    (Parser.kind >>= f).Reads c b x := by
  subst hk
  exact h

theorem peek {f : Kind → Parser β} (h : (f c.peek).Reads c b x) :
    (Parser.peek >>= f).Reads c b x := h

theorem text {f : String → Parser β} (h : (f c.text).Reads c b x) :
    (Parser.text >>= f).Reads c b x := h

theorem expect {f : Unit → Parser β} {k : Kind} {t : Token} (ht : t.kind = k)
    (hc : c.rest.tail = t :: y) (h : ∀ d : Cursor, d.rest = t :: y → (f ()).Reads d b x) :
    (Parser.expect k >>= f).Reads c b x := by
  have hpeek : c.peek = k := by rw [Cursor.peek, hc, kindOf_cons, ht]
  exact step (if_pos hpeek) (h c.advance (by rw [c.advance_rest, hc]))

theorem skip {f : Unit → Parser β} {k : Kind} {t : Token} (ht : t.kind = k)
    (hc : c.rest.tail = t :: y) (h : ∀ d : Cursor, d.rest = t :: y → (f ()).Reads d b x) :
    (Parser.skip k >>= f).Reads c b x := by
  have hpeek : c.peek = k := by rw [Cursor.peek, hc, kindOf_cons, ht]
  refine step ?_ (h c.advance (by rw [c.advance_rest, hc]))
  rw [Parser.skip, if_pos hpeek]

end Parser.Reads

/-- The tokens that end a free expression. -/
def Kind.delimits : Kind → Bool
  | .comma | .semicolon | .rparen | .rbracket => true
  | _ => false

theorem Kind.not_starts_of_delimits {k : Kind} (h : k.delimits) :
    Nested.startsOperand k = false := by
  cases k <;> first | rfl | cases h

theorem Kind.precedence_of_delimits {k : Kind} (h : k.delimits) :
    ¬ Precedence.lowest < k.precedence ∧ k ≠ .kwElse := by
  cases k <;> first | exact ⟨by decide, by decide⟩ | cases h

/-- No token that starts an expression has a place of its own between statements. -/
theorem Kind.statement_of_starts {k : Kind} (h : Nested.startsOperand k) :
    k ≠ .kwLet ∧ k ≠ .kwReturn ∧ k ≠ .lbrace ∧ Nested.endsBlock k = false := by
  cases k <;> first | exact ⟨by decide, by decide, by decide, rfl⟩ | cases h

/-- The expression ends with a suffix, so that another expression stands at its front. -/
def Expr.Continues : Expr → Prop
  | .binary _ _ _ | .call _ _ | .index _ _ => True
  | _ => False

/-- The parsers read everything that is written with fewer than `n` tokens. -/
structure Nested.Complete (p : Nested) (n : Nat) : Prop where
  expr {pos : Position} {least : Precedence} {e : Expr} {w x : List Token} {c : Cursor} :
    Written true pos e w → w.length < n → pos.Entered least → ¬ least < (kindOf x).precedence →
    kindOf x ≠ .kwElse → c.rest = w ++ x → (p.expr least).Reads c e x
  block {ss : Block} {w x : List Token} {c : Cursor} :
    Braced true ss w → w.length < n → c.rest = w ++ x → p.block.Reads c ss x

namespace Writing

/-- An expression starts with a token that starts an operand. -/
theorem Written.starts {req : Bool} {pos : Position} {e : Expr} {w : List Token}
    (h : Written req pos e w) (x : List Token) : Nested.startsOperand (kindOf (w ++ x)) := by
  induction hl : w.length using Nat.strongRecOn generalizing pos e w x with
  | ind l ih =>
      cases h with
      | group ho hw hz => rw [List.cons_append, kindOf_cons, ho]; rfl
      | bare hg hw =>
          cases hw with
          | ident ht | int ht | str ht => rw [List.cons_append, kindOf_cons, ht]; rfl
          | @bool t b ht => cases b <;> rw [List.cons_append, kindOf_cons, ht] <;> rfl
          | array ho | cond ho | function ho => rw [List.cons_append, kindOf_cons, ho]; rfl
          | @unary t op e w ht => cases op <;> rw [List.cons_append, kindOf_cons, ht] <;> rfl
          | @binary t op a b u w hu ht hw =>
              rw [List.append_assoc]
              rw [List.length_append, List.length_cons] at hl
              exact ih u.length (by omega) hu _ rfl
          | @call o z f args u w hu | @index o z a i u w hu =>
              rw [List.append_assoc]
              rw [List.length_append, List.length_cons] at hl
              exact ih u.length (by omega) hu _ rfl

theorem MoreItems.delimits {req : Bool} {es : List Expr} {w : List Token}
    (h : MoreItems req es w) {z : Token} (hz : z.kind.delimits) (x : List Token) :
    (kindOf (w ++ z :: x)).delimits := by
  cases h with
  | nil => exact hz
  | cons hk hu hw => rw [List.cons_append, kindOf_cons, hk]; rfl

/-- A statement starts with a token that ends no list of statements. -/
theorem Stated.not_ends {req : Bool} {s : Stmt} {w : List Token} (h : Stated req s w)
    (x : List Token) : Nested.endsBlock (kindOf (w ++ x)) = false := by
  cases h with
  | bind hl | ret hl => rw [List.cons_append, kindOf_cons, hl]; rfl
  | expr hw hz =>
      rw [List.append_assoc]
      exact (Kind.statement_of_starts (hw.starts _)).2.2.2
  | block hw =>
      cases hw with
      | braces ho hw hz => rw [List.cons_append, kindOf_cons, ho]; rfl

end Writing

namespace Nested

variable {p : Nested} {n m : Nat} {c : Cursor} {e : Expr} {w x : List Token} {z : Token}

theorem Complete.free (hp : p.Complete n) (hw : Written true .free e w) (hn : w.length < n)
    (hx : (kindOf x).delimits) (hc : c.rest = w ++ x) : (p.expr .lowest).Reads c e x :=
  hp.expr hw hn .free (Kind.precedence_of_delimits hx).1 (Kind.precedence_of_delimits hx).2 hc

theorem moreItems_reads {es : List Expr} {close : Kind} (hp : p.Complete n)
    (hw : MoreItems true es w) (hn : w.length ≤ n) (hm : w.length < m)
    (hz : z.kind = close) (hclose : close.delimits) (hcomma : close ≠ .comma)
    (hc : c.rest.tail = w ++ z :: x) : (p.moreItems close m).Reads c es x := by
  induction m generalizing es w c with
  | zero => omega
  | succ m ih =>
      have hpeek : c.peek = kindOf (w ++ z :: x) := by rw [Cursor.peek, hc]
      cases hw with
      | nil =>
          have hne : c.peek ≠ .comma := by
            rw [hpeek, List.nil_append, kindOf_cons, hz]
            exact hcomma
          refine .peek ?_
          rw [if_neg hne]
          exact .expect hz hc fun d hd => .pure (by rw [hd, List.tail_cons])
      | @cons k e es u w hk hu hw =>
          simp only [List.length_cons, List.length_append] at hn hm
          refine .peek ?_
          rw [if_pos (by rw [hpeek, List.cons_append, kindOf_cons, hk])]
          refine .advance (.advance ?_)
          refine (hp.free hu (by omega) (hw.delimits (hz ▸ hclose) x) ?_).bind fun d hd => ?_
          · rw [Cursor.advance_rest, Cursor.advance_rest, hc]
            simp
          · exact (ih hw (by omega) (by omega) hd).bind fun d hd => .pure hd

theorem items_reads {es : List Expr} {close : Kind} (hp : p.Complete n)
    (hw : Items true es w) (hn : w.length < n) (hm : w.length < m)
    (hz : z.kind = close) (hclose : close.delimits) (hcomma : close ≠ .comma)
    (hc : c.rest.tail = w ++ z :: x) : (p.items m close).Reads c es x := by
  refine .peek ?_
  cases hw with
  | nil =>
      rw [if_pos (by rw [Cursor.peek, hc, List.nil_append, kindOf_cons, hz])]
      refine .advance (.pure ?_)
      rw [c.advance_rest, hc]
      rfl
  | @cons e es u w hu hw =>
      rw [List.length_append] at hn hm
      -- no item starts with the closing delimiter
      have hne : c.peek ≠ close := by
        intro hpeek
        have hs := hu.starts (w ++ z :: x)
        rw [← List.append_assoc, ← hc, ← Cursor.peek, hpeek,
          Kind.not_starts_of_delimits hclose] at hs
        cases hs
      rw [if_neg hne]
      refine .advance ?_
      refine (hp.free hu (by omega) (hw.delimits (hz ▸ hclose) x) ?_).bind fun d hd => ?_
      · rw [c.advance_rest, hc, List.append_assoc]
      · exact (moreItems_reads hp hw (by omega) (by omega) hz hclose hcomma hd).bind
          fun d hd => .pure hd

theorem moreParams_reads {ns : List String} (hw : MoreNames ns w) (hm : w.length < m)
    (hz : z.kind = .rparen) (hc : c.rest.tail = w ++ z :: x) : (moreParams m).Reads c ns x := by
  induction hw generalizing m c with
  | nil =>
      obtain ⟨m, rfl⟩ : ∃ k, m = k + 1 := ⟨m - 1, by omega⟩
      refine .peek ?_
      rw [if_neg (by rw [Cursor.peek, hc, List.nil_append, kindOf_cons, hz]; decide)]
      exact .expect hz hc fun d hd => .pure (by rw [hd, List.tail_cons])
  | @cons k t ns w hk ht hw ih =>
      obtain ⟨m, rfl⟩ : ∃ k, m = k + 1 := ⟨m - 1, by omega⟩
      simp only [List.length_cons] at hm
      refine .peek ?_
      rw [if_pos (by rw [Cursor.peek, hc, List.cons_append, kindOf_cons, hk])]
      refine .advance (.expect ht (y := w ++ z :: x) (by rw [c.advance_rest, hc]; rfl) ?_)
      intro d hd
      refine .text ?_
      rw [Cursor.text_of_rest hd]
      exact (ih (by omega) (by rw [hd, List.tail_cons])).bind fun d hd => .pure hd

theorem params_reads {ns : List String} (hw : Names ns w) (hm : w.length ≤ m)
    (hz : z.kind = .rparen) (hc : c.rest.tail = w ++ z :: x) : (params m).Reads c ns x := by
  refine .peek ?_
  cases hw with
  | nil =>
      rw [if_pos (by rw [Cursor.peek, hc, List.nil_append, kindOf_cons, hz])]
      refine .advance (.pure ?_)
      rw [c.advance_rest, hc]
      rfl
  | @cons t ns w ht hw =>
      rw [List.length_cons] at hm
      rw [if_neg (by rw [Cursor.peek, hc, List.cons_append, kindOf_cons, ht]; decide)]
      refine .expect ht (y := w ++ z :: x) hc ?_
      intro d hd
      refine .text ?_
      rw [Cursor.text_of_rest hd]
      exact (moreParams_reads hw (by omega) hz (by rw [hd, List.tail_cons])).bind
        fun d hd => .pure hd

/-- A block behind the token on which the cursor stands. -/
theorem braced_reads {α : Type} {ss : Block} {f : Block → α} (hp : p.Complete n)
    (hw : Braced true ss w) (hn : w.length < n) (hc : c.rest.tail = w ++ x) :
    (do Parser.expect .lbrace; let b ← p.block; return f b).Reads c (f ss) x := by
  have hb := hw
  cases hw with
  | braces ho hw hz =>
      refine .expect ho hc ?_
      intro d hd
      exact (hp.block hb hn hd).bind fun d hd => .pure hd

theorem alternative_reads {no : Option Block} (hp : p.Complete n) (hw : Alternative true no w)
    (hn : w.length < n) (hx : kindOf x ≠ .kwElse) (hc : c.rest.tail = w ++ x) :
    p.alternative.Reads c no x := by
  refine .peek ?_
  cases hw with
  | none =>
      rw [if_neg (by rw [Cursor.peek, hc]; exact hx)]
      exact .pure hc
  | @some e ss w he hw =>
      rw [List.length_cons] at hn
      rw [if_pos (by rw [Cursor.peek, hc, List.cons_append, kindOf_cons, he])]
      refine .advance (braced_reads hp hw (by omega) ?_)
      rw [c.advance_rest, hc]
      rfl

theorem group_reads {o : Token} (hp : p.Complete n) (hw : Written true .free e w)
    (hn : w.length < n) (hz : z.kind = .rparen) (hc : c.rest = o :: (w ++ z :: x)) :
    p.group.Reads c e x := by
  refine .advance ?_
  refine (hp.free hw hn (x := z :: x) (by rw [kindOf_cons, hz]; rfl) ?_).bind fun d hd => ?_
  · rw [c.advance_rest, hc, List.tail_cons]
  · exact .expect hz hd fun d hd => .pure (by rw [hd, List.tail_cons])

theorem unary_reads {t : Token} {op : UnaryOp} (hp : p.Complete n)
    (hw : Written true .operand e w) (hn : w.length < n)
    (hx : ¬ Precedence.unary < (kindOf x).precedence) (helse : kindOf x ≠ .kwElse)
    (hc : c.rest = t :: (w ++ x)) : (p.unaryBy op).Reads c (.unary op e) x := by
  refine .advance ?_
  refine (hp.expr hw hn .operand hx helse ?_).bind fun d hd => .pure hd
  rw [c.advance_rest, hc, List.tail_cons]

theorem conditional_reads {i o : Token} {yes : Block} {no : Option Block} {y v : List Token}
    (hp : p.Complete n) (ho : o.kind = .lparen) (hw : Written true .free e w)
    (hz : z.kind = .rparen) (hy : Braced true yes y) (hv : Alternative true no v)
    (hn : w.length + y.length + v.length < n) (helse : kindOf x ≠ .kwElse)
    (hc : c.rest = i :: o :: (w ++ z :: (y ++ v ++ x))) :
    p.conditional.Reads c (.cond e yes no) x := by
  refine .expect ho (by rw [hc, List.tail_cons]) fun c hc => .advance ?_
  refine (hp.free hw (by omega) (x := z :: (y ++ v ++ x)) (by rw [kindOf_cons, hz]; rfl) ?_).bind
    fun c hc => ?_
  · rw [c.advance_rest, hc, List.tail_cons]
  refine .expect hz hc fun c hc => ?_
  have hb := hy
  cases hy with
  | @braces b r ss s hb' hs hr =>
      refine .expect (t := b) hb' (by rw [hc, List.tail_cons]; rfl) fun c hc => ?_
      refine (hp.block hb (by omega) (x := v ++ x) (by rw [hc]; simp)).bind fun c hc => ?_
      exact (alternative_reads hp hv (by omega) helse hc).bind fun c hc => .pure hc

theorem function_reads {f o : Token} {ns : List String} {body : Block} {y : List Token}
    (hp : p.Complete n) (ho : o.kind = .lparen) (hw : Names ns w) (hz : z.kind = .rparen)
    (hy : Braced true body y) (hn : y.length < n) (hm : w.length ≤ m)
    (hc : c.rest = f :: o :: (w ++ z :: (y ++ x))) :
    (p.function m).Reads c (.function ns body) x := by
  refine .expect ho (by rw [hc, List.tail_cons]) fun c hc => ?_
  refine (params_reads hw hm hz (by rw [hc, List.tail_cons])).bind fun c hc => ?_
  exact braced_reads hp hy hn hc

/-- The forms that do not continue what stands before them. -/
theorem operand_reads (hp : p.Complete n) (hw : Bare true e w) (he : ¬ e.Continues)
    (hn : w.length ≤ n) (hm : w.length ≤ m) (hyields : e.Yields (kindOf x))
    (helse : kindOf x ≠ .kwElse) (hc : c.rest = w ++ x) : (p.operand m).Reads c e x := by
  rw [operand_eq]
  cases hw with
  | @ident t ht | @str t ht =>
      refine .kind ((Cursor.kind_of_rest hc).trans ht) (.text ?_)
      rw [Cursor.text_of_rest hc]
      exact .pure (by rw [hc]; rfl)
  | @int t v ht hv =>
      refine .kind ((Cursor.kind_of_rest hc).trans ht) (.text ?_)
      rw [Cursor.text_of_rest hc, hv]
      exact .pure (by rw [hc]; rfl)
  | @bool t b ht =>
      refine .kind ((Cursor.kind_of_rest hc).trans ht) ?_
      cases b <;> exact .pure (by rw [hc]; rfl)
  | @array o z es w ho hw hz =>
      simp only [List.length_cons, List.length_append] at hn hm
      refine .kind ((Cursor.kind_of_rest hc).trans ho) ?_
      exact (items_reads hp hw (by omega) (by omega) hz rfl (by decide)
        (by rw [hc]; simp)).bind fun d hd => .pure hd
  | @unary t op e w ht hw =>
      rw [List.length_cons] at hn
      refine .kind ((Cursor.kind_of_rest hc).trans ht) ?_
      cases op <;> exact unary_reads hp hw (by omega) hyields helse hc
  | @cond i o z test yes no w y v hi ho hw hz hy hv =>
      simp only [List.length_cons, List.length_append] at hn
      refine .kind ((Cursor.kind_of_rest hc).trans hi) ?_
      exact conditional_reads hp ho hw hz hy hv (by omega) helse (by simpa using hc)
  | @function f o z ns body w y hf ho hw hz hy =>
      simp only [List.length_cons, List.length_append] at hn hm
      refine .kind ((Cursor.kind_of_rest hc).trans hf) ?_
      exact function_reads hp ho hw hz hy (by omega) (by omega) (by simpa using hc)
  | binary | call | index => exact absurd trivial he

section

variable {left : Expr} {t : Token}

theorem extend_operator_reads {op : BinaryOp} (hp : p.Complete n)
    (hw : Written true (.right op) e w) (hn : w.length < n)
    (hx : ¬ op.precedence < (kindOf x).precedence) (helse : kindOf x ≠ .kwElse)
    (hc : c.rest = t :: (w ++ x)) :
    (p.extend m left (.operator op)).Reads c (.binary op left e) x := by
  refine .advance ?_
  refine (hp.expr hw hn (.right op) hx helse ?_).bind fun d hd => .pure hd
  rw [c.advance_rest, hc, List.tail_cons]

theorem extend_call_reads {args : List Expr} (hp : p.Complete n) (hw : Items true args w)
    (hn : w.length < n) (hm : w.length < m) (hz : z.kind = .rparen)
    (hc : c.rest = t :: (w ++ z :: x)) : (p.extend m left .call).Reads c (.call left args) x :=
  (items_reads hp hw hn hm hz rfl (by decide) (by rw [hc, List.tail_cons])).bind
    fun d hd => .pure hd

theorem extend_index_reads (hp : p.Complete n) (hw : Written true .free e w)
    (hn : w.length < n) (hz : z.kind = .rbracket) (hc : c.rest = t :: (w ++ z :: x)) :
    (p.extend m left .index).Reads c (.index left e) x := by
  refine .advance ?_
  refine (hp.free hw hn (x := z :: x) (by rw [kindOf_cons, hz]; rfl) ?_).bind fun d hd => ?_
  · rw [c.advance_rest, hc, List.tail_cons]
  · exact .expect hz hd fun d hd => .pure (by rw [hd, List.tail_cons])

end

/-- From `c` on the loop of an expression has read `e` and stands before `x`. So far it has taken
at most `k` turns. -/
def Climbs (p : Nested) (m : Nat) (least : Precedence) (c : Cursor) (e : Expr) (x : List Token)
    (k : Nat) : Prop :=
  ∃ d j, j ≤ k ∧ p.expression m least c = p.climb m least (m - j) e d ∧ d.rest.tail = x ∧
    d.diagnostics = c.diagnostics

variable {least : Precedence} {k : Nat} {y : List Token} {s : Suffix}

theorem Climbs.of_operand (h : (p.operand m).Reads c e x) : p.Climbs m least c e x k := by
  obtain ⟨d, hd, hx, hdiag⟩ := h
  refine ⟨d, 0, Nat.zero_le k, ?_, hx, hdiag⟩
  rw [expression, bind_apply, hd]
  rfl

/-- One turn more, for a suffix that binds tighter than `least`. -/
theorem Climbs.extend {left : Expr} {t : Token} {l : Nat}
    (h : p.Climbs m least c left (t :: y) k) (hk : k < l) (hm : l ≤ m)
    (hs : t.kind.suffix? = some s) (hl : least < s.precedence)
    (he : ∀ d : Cursor, d.rest = t :: y → (p.extend m left s).Reads d e x) :
    p.Climbs m least c e x l := by
  obtain ⟨d, j, hj, hd, hy, hdiag⟩ := h
  obtain ⟨f, hf, hx, hdiag'⟩ := he d.advance (by rw [d.advance_rest, hy])
  refine ⟨f, j + 1, by omega, ?_, hx, (hdiag'.trans d.advance_diagnostics).trans hdiag⟩
  have hpeek : d.peek.suffix? = some s := by rw [Cursor.peek, hy, kindOf_cons, hs]
  rw [hd, show m - j = m - (j + 1) + 1 by omega, climb_succ, peek_bind, hpeek]
  simp only [if_pos hl, advance_bind]
  rw [bind_apply, hf]

/-- The loop ends before a token that does not bind tighter than `least`. -/
theorem Climbs.reads (h : p.Climbs m least c e x k) (hk : k < m)
    (hx : ¬ least < (kindOf x).precedence) : (p.expression m least).Reads c e x := by
  obtain ⟨d, j, hj, hd, hy, hdiag⟩ := h
  refine ⟨d, ?_, hy, hdiag⟩
  rw [hd, show m - j = m - (j + 1) + 1 by omega, climb_succ, peek_bind, Cursor.peek, hy]
  cases hs : (kindOf x).suffix? with
  | none => rfl
  | some s =>
      rw [Kind.precedence_of_suffix hs] at hx
      simp only [if_neg hx]
      rfl

/-- The loop reads an expression that may be entered with `least` and stand in front of `x`. What
stands left of a suffix may be entered alike, since the suffix binds tighter than `least`. -/
theorem climbs_of_written {pos : Position} (hp : p.Complete n) (hw : Written true pos e w)
    (hn : w.length ≤ n) (hm : w.length ≤ m) (habove : ¬ pos.Groups e → e.Above least)
    (hyields : ¬ pos.Groups e → e.Yields (kindOf x)) (helse : kindOf x ≠ .kwElse)
    (hl : ¬ Precedence.unary < least) (hc : c.rest = w ++ x) :
    p.Climbs m least c e x (w.length - 1) := by
  induction hlen : w.length using Nat.strongRecOn generalizing pos e w x with
  | ind l ih =>
      subst hlen
      -- what stands to the left of a suffix `s`
      have hleft : ∀ {pos : Position} {a : Expr} {t : Token} {s : Suffix} {u y : List Token},
          Written true pos a u → u.length < w.length → t.kind.suffix? = some s →
          least < s.precedence → (¬ pos.Groups a → a.Yields t.kind) → c.rest = u ++ t :: y →
          p.Climbs m least c a (t :: y) (u.length - 1) := by
        intro pos a t s u y hu hlt hs hls hy hc
        refine ih u.length hlt hu (by omega) (by omega) ?_ hy ?_ hc rfl
        · intro hg
          refine Expr.above_of_yields (hy hg) ?_
          rwa [Kind.precedence_of_suffix hs]
        · intro he
          rw [kindOf_cons] at he
          rw [he] at hs
          cases hs
      cases hw with
      | @group _ o z e w ho hw hz =>
          simp only [List.length_cons, List.length_append] at hn
          exact .of_operand (.kind ((Cursor.kind_of_rest hc).trans ho)
            (group_reads hp hw (by omega) hz (by simpa using hc)))
      | bare hg hw =>
          have hyields := hyields hg
          by_cases he : e.Continues
          · cases hw with
            | @binary t op a b u w hu ht hw =>
                have hne := List.length_pos_iff.2 hu.ne_nil
                simp only [List.length_cons, List.length_append] at hn hm hleft ⊢
                have hs : t.kind.suffix? = some (.operator op) := by rw [ht, op.suffix?_kind]
                have hclimb := hleft (y := w ++ x) hu (by omega) hs (habove hg)
                  (fun hg => by rw [ht]; exact Position.not_groups_left_iff.1 hg)
                  (by simpa using hc)
                exact hclimb.extend (by omega) (by omega) hs (habove hg) fun d hd =>
                  extend_operator_reads hp hw (by omega) hyields helse hd
            | @call o z f args u w hu ho hw hz =>
                have hne := List.length_pos_iff.2 hu.ne_nil
                simp only [List.length_cons, List.length_append] at hn hm hleft ⊢
                have hs : o.kind.suffix? = some .call := by rw [ho]; rfl
                have hls : least < Suffix.call.precedence :=
                  Precedence.lt_of_not_lt_of_lt hl (by decide)
                have hclimb := hleft (y := w ++ z :: x) hu (by omega) hs hls
                  (Position.not_groups_callee_iff (by rw [ho]; decide)).1 (by simpa using hc)
                exact hclimb.extend (by omega) (by omega) hs hls fun d hd =>
                  extend_call_reads hp hw (by omega) (by omega) hz hd
            | @index o z a i u w hu ho hw hz =>
                have hne := List.length_pos_iff.2 hu.ne_nil
                simp only [List.length_cons, List.length_append] at hn hm hleft ⊢
                have hs : o.kind.suffix? = some .index := by rw [ho]; rfl
                have hls : least < Suffix.index.precedence :=
                  Precedence.lt_of_not_lt_of_lt hl (by decide)
                have hclimb := hleft (y := w ++ z :: x) hu (by omega) hs hls
                  (fun hg => (Position.not_groups_callee_iff (by rw [ho]; decide)).1
                    (mt Position.groups_subject.2 hg)) (by simpa using hc)
                exact hclimb.extend (by omega) (by omega) hs hls fun d hd =>
                  extend_index_reads hp hw (by omega) hz hd
            | _ => cases he
          · exact .of_operand (operand_reads hp hw he hn hm hyields helse hc)

theorem expression_reads {pos : Position} (hp : p.Complete n) (hw : Written true pos e w)
    (hn : w.length ≤ n) (hm : w.length ≤ m) (hpos : pos.Entered least)
    (hx : ¬ least < (kindOf x).precedence) (helse : kindOf x ≠ .kwElse) (hc : c.rest = w ++ x) :
    (p.expression m least).Reads c e x := by
  have hne := List.length_pos_iff.2 hw.ne_nil
  have hclimb : p.Climbs m least c e x (w.length - 1) := by
    refine climbs_of_written hp hw hn hm hpos.not_groups_iff.1 ?_ helse hpos.not_unary_lt hc
    intro hg
    exact Expr.yields_of_above (hpos.not_groups_iff.1 hg) hx hpos.not_unary_lt
  exact hclimb.reads (by omega) hx

/-- An expression and the `;` behind it. -/
theorem terminated_reads {α : Type} {f : Expr → α} {t : List Token} (hp : p.Complete n)
    (hw : Written true .free e w) (hn : w.length < n) (ht : Terminated true t)
    (hc : c.rest = w ++ (t ++ x)) :
    (do let v ← p.expr .lowest; Parser.skip .semicolon; return f v).Reads c (f e) x := by
  cases ht with
  | @semicolon t ht =>
      refine (hp.free hw hn (x := t :: x) (by rw [kindOf_cons, ht]; rfl) hc).bind fun d hd => ?_
      exact .skip ht hd fun d hd => .pure (by rw [hd, List.tail_cons])
  | nothing h => cases h

theorem statement_reads {s : Stmt} (hp : p.Complete n) (hw : Stated true s w)
    (hn : w.length < n) (hc : c.rest = w ++ x) : p.statement.Reads c s x := by
  cases hw with
  | @bind l t a e w z hl ht ha hw hz =>
      simp only [List.length_cons, List.length_append] at hn
      refine .kind ((Cursor.kind_of_rest hc).trans hl) ?_
      refine .expect (y := a :: (w ++ (z ++ x))) ht (by rw [hc]; simp) fun c hc => .text ?_
      rw [Cursor.text_of_rest hc]
      refine .expect ha (by rw [hc, List.tail_cons]) fun c hc => .advance ?_
      exact terminated_reads hp hw (by omega) hz (by rw [c.advance_rest, hc, List.tail_cons])
  | @ret r e w z hr hw hz =>
      simp only [List.length_cons, List.length_append] at hn
      refine .kind ((Cursor.kind_of_rest hc).trans hr) (.advance ?_)
      exact terminated_reads hp hw (by omega) hz (by rw [c.advance_rest, hc]; simp)
  | @expr e w z hw hz =>
      rw [List.length_append] at hn
      rw [List.append_assoc] at hc
      have hk : startsOperand c.kind := by
        rw [Cursor.kind, hc]
        exact hw.starts _
      obtain ⟨hlet, hret, hbrace, -⟩ := Kind.statement_of_starts hk
      rw [Parser.Reads, p.statement_of_other hlet hret hbrace]
      exact terminated_reads hp hw (by omega) hz hc
  | @block ss w hw =>
      have hk : c.kind = .lbrace := by
        cases hw with
        | braces ho => exact (Cursor.kind_of_rest hc).trans ho
      exact .kind hk ((hp.block hw hn hc).bind fun d hd => .pure hd)

/-- The statements of a list, in front of a token that ends it. -/
theorem statements_reads {ss : Block} {stop : Kind → Bool} {level : Nat} (hp : p.Complete n)
    (hw : Listed true ss w) (hn : w.length < n) (hm : w.length < m)
    (hstop : ∀ k, stop k → endsBlock k) (hx : stop (kindOf x)) (hc : c.rest = w ++ x) :
    ∃ d, p.statements stop level m c = (ss, d) ∧ d.rest = x ∧ d.diagnostics = c.diagnostics := by
  induction m generalizing ss w c with
  | zero => omega
  | succ m ih =>
      cases hw with
      | nil =>
          have hk : stop c.kind := by
            rw [Cursor.kind, hc]
            exact hx
          exact ⟨c, p.statements_of_stop hk, hc, rfl⟩
      | @cons s ss u w hu hw =>
          have hne := List.length_pos_iff.2 hu.ne_nil
          rw [List.length_append] at hn hm
          rw [List.append_assoc] at hc
          have hk : stop c.kind = false := by
            have hends := hu.not_ends (w ++ x)
            rw [← hc] at hends
            exact Bool.eq_false_iff.2 (fun h => Bool.eq_false_iff.1 hends (hstop _ h))
          obtain ⟨d, hd, hy, hdiag⟩ := statement_reads hp hu (by omega) hc
          obtain ⟨f, hf, hrest, hdiag'⟩ :=
            ih hw (by omega) (by omega) (c := d.advance) (by rw [d.advance_rest, hy])
          refine ⟨f, ?_, hrest, (hdiag'.trans d.advance_diagnostics).trans hdiag⟩
          rw [p.statements_of_read hk hd, hf]

theorem body_reads {ss : Block} (hp : p.Complete n) (hw : Braced true ss w)
    (hn : w.length ≤ n) (hm : w.length ≤ m) (hc : c.rest = w ++ x) : (p.body m).Reads c ss x := by
  cases hw with
  | @braces o z ss w ho hw hz =>
      simp only [List.length_cons, List.length_append] at hn hm
      have hrest : c.advance.rest = w ++ z :: x := by
        rw [c.advance_rest, hc]
        simp
      obtain ⟨d, hd, hy, hdiag⟩ := statements_reads hp hw (by omega) (m := m) (by omega)
        (fun _ h => h) (by rw [kindOf_cons, hz]; rfl) hrest
      refine ⟨d, p.body_of_statements hd, by rw [hy, List.tail_cons], ?_⟩
      exact hdiag.trans c.advance_diagnostics

theorem complete_within (n : Nat) : (within n).Complete n := by
  induction n with
  | zero => exact ⟨fun _ h => absurd h (Nat.not_lt_zero _), fun _ h => absurd h (Nat.not_lt_zero _)⟩
  | succ n ih =>
      constructor
      · intro pos least e w x c hw hn hpos hx helse hc
        exact expression_reads ih hw (by omega) (by omega) hpos hx helse hc
      · intro ss w x c hw hn hc
        exact body_reads ih hw (by omega) (m := n + 1) (by omega) hc

end Nested

/-- Every spelling of a program with a `;` behind each statement is read as that program. -/
theorem ofTokens_of_listed (p : Program) (ts : List Token) (h : Listed true p.statements ts) :
    Parsed.ofTokens ts = ⟨p, #[]⟩ := by
  have hends : ∀ k, Nested.endsProgram k → Nested.endsBlock k := by
    intro k hk
    rw [Nested.endsProgram, beq_iff_eq] at hk
    rw [hk]
    rfl
  obtain ⟨d, hd, -, hdiag⟩ : ∃ d, (Nested.within (ts.length + 1)).statements Nested.endsProgram 0
      (ts.length + 1) (Cursor.start ts) = (p.statements, d) ∧ d.rest = [] ∧ d.diagnostics = #[] :=
    Nested.statements_reads (Nested.complete_within (ts.length + 1)) h (Nat.lt_succ_self _)
      (Nat.lt_succ_self _) hends rfl (List.append_nil ts).symm
  rw [Parsed.ofTokens_of_statements hd, hdiag]

/-- `-(a + b) * c;` keeps the sum together and lets `-` take only the group. -/
theorem ofTokens_of_listed_grouped :
    let a : Expr := .ident "a"
    let b : Expr := .ident "b"
    let c : Expr := .ident "c"
    Parsed.ofTokens [.symbol .minus, .symbol .lparen, ⟨.ident, "a"⟩, .symbol .plus,
        ⟨.ident, "b"⟩, .symbol .rparen, .symbol .star, ⟨.ident, "c"⟩, .symbol .semicolon] =
      ⟨⟨[.expr (.binary .mul (.unary .negate (.binary .add a b)) c)]⟩, #[]⟩ := by
  intro a b c
  have name (pos : Position) (s : String) : Written true pos (.ident s) [⟨.ident, s⟩] :=
    .bare (by cases pos <;> exact id) (.ident (t := ⟨.ident, s⟩) rfl)
  have sum : Written true .free (.binary .add a b)
      ([⟨.ident, "a"⟩] ++ .symbol .plus :: [⟨.ident, "b"⟩]) :=
    .bare id (.binary (name _ _) rfl (name _ _))
  have negated : Written true (.left .mul) (.unary .negate (.binary .add a b)) _ :=
    .bare id (.unary (t := .symbol .minus) rfl
      (.group (o := .symbol .lparen) (z := .symbol .rparen) rfl sum rfl))
  have product : Written true .free (.binary .mul (.unary .negate (.binary .add a b)) c) _ :=
    .bare id (.binary (t := .symbol .star) negated rfl (name _ "c"))
  exact ofTokens_of_listed ⟨[.expr _]⟩ _
    (.cons (.expr product (.semicolon (t := .symbol .semicolon) rfl)) .nil)

end Sprig
