import Sprig.Grammar.Parsed
import Sprig.Proofs.Grammar.Tables

/-!
Where the leaves of a tree come from.

Every name and every literal of a tree is the text of a token, also in a tree that was read from
malformed tokens. `Expr.MadeOf` says so for tokens with an arbitrary property, and `Parser.Gives`
carries it through the parsers: the tokens that are left have the property, and so do the leaves of
what was read. Nothing is claimed about the diagnostics or the bounds, so a loop that runs out of
its bound needs no argument.
-/

namespace Sprig

open Sprig.Parser

mutual

/-- The names and literals of the expression are texts of tokens with the property `P`. -/
def Expr.MadeOf (P : Token → Prop) : Expr → Prop
  | .ident name => P ⟨.ident, name⟩
  | .int value => ∃ digits, P ⟨.int, digits⟩ ∧ Text.readInt64? digits = some value
  | .str value => P ⟨.string, value⟩
  | .bool _ => True
  | .array items => Expr.MadeOfAll P items
  | .unary _ operand => operand.MadeOf P
  | .binary _ left right => left.MadeOf P ∧ right.MadeOf P
  | .cond test yes none => test.MadeOf P ∧ Stmt.MadeOfAll P yes
  | .cond test yes (some no) => test.MadeOf P ∧ Stmt.MadeOfAll P yes ∧ Stmt.MadeOfAll P no
  | .function params body => (∀ name ∈ params, P ⟨.ident, name⟩) ∧ Stmt.MadeOfAll P body
  | .call callee args => callee.MadeOf P ∧ Expr.MadeOfAll P args
  | .index subject position => subject.MadeOf P ∧ position.MadeOf P
termination_by structural e => e

def Expr.MadeOfAll (P : Token → Prop) : List Expr → Prop
  | [] => True
  | e :: es => e.MadeOf P ∧ Expr.MadeOfAll P es
termination_by structural es => es

def Stmt.MadeOf (P : Token → Prop) : Stmt → Prop
  | .bind name value => P ⟨.ident, name⟩ ∧ value.MadeOf P
  | .ret value | .expr value => value.MadeOf P
  | .block body => Stmt.MadeOfAll P body
termination_by structural s => s

def Stmt.MadeOfAll (P : Token → Prop) : List Stmt → Prop
  | [] => True
  | s :: ss => s.MadeOf P ∧ Stmt.MadeOfAll P ss
termination_by structural ss => ss

end

/-- The tokens from the position on have the property `P`, unless they mark the end. -/
def Cursor.Holds (P : Token → Prop) (c : Cursor) : Prop := ∀ t ∈ c.rest, t.kind ≠ .eof → P t

/-- An outcome that leaves tokens with the property `P`, and whose result, if there is one,
satisfies `Q`. -/
structure Given {α : Type} (P : Token → Prop) (Q : α → Prop) (x : Option α × Cursor) : Prop where
  rest : x.2.Holds P
  result : ∀ a ∈ x.1, Q a

/-- From tokens with the property `P` the parser reads only what satisfies `Q`. -/
def Parser.Gives {α : Type} (P : Token → Prop) (p : Parser α) (Q : α → Prop) : Prop :=
  ∀ c : Cursor, c.Holds P → Given P Q (p c)

variable {P : Token → Prop}

namespace Cursor

variable {c : Cursor}

theorem Holds.advance (h : c.Holds P) : c.advance.Holds P := by
  intro t ht
  rw [c.advance_rest] at ht
  exact h t (List.mem_of_mem_tail ht)

/-- The current token, if it is not the end, is one of the tokens. -/
theorem Holds.current {k : Kind} (h : c.Holds P) (hk : c.kind = k) (hne : k ≠ .eof) :
    P ⟨k, c.text⟩ := by
  cases hr : c.rest with
  | nil =>
      rw [Cursor.kind, hr] at hk
      exact absurd hk.symm hne
  | cons t ts =>
      rw [kind_of_rest hr] at hk
      subst hk
      rw [text_of_rest hr]
      exact h t (by rw [hr]; exact List.mem_cons_self) hne

theorem skipFrom_suffix (level : Nat) (ts : List Token) (depth : Nat) :
    (skipFrom level ts depth).1 <:+ ts := by
  induction ts generalizing depth with
  | nil => exact List.suffix_refl _
  | cons t ts ih =>
      rw [skipFrom]
      split
      · exact List.suffix_refl _
      · exact (ih _).trans (List.suffix_cons t ts)

theorem Holds.recover (h : c.Holds P) (level : Nat) : (c.recover level).Holds P :=
  fun t ht => h t ((skipFrom_suffix level c.rest c.depth).subset ht)

end Cursor

namespace Parser.Gives

variable {α β : Type} {Q : α → Prop} {R : β → Prop}

theorem pure {a : α} (h : Q a) : (Pure.pure a : Parser α).Gives P Q :=
  fun _ hc => ⟨hc, fun _ hb => by cases hb; exact h⟩

theorem bind {p : Parser α} {f : α → Parser β} (h : p.Gives P Q)
    (k : ∀ a, Q a → (f a).Gives P R) : (p >>= f).Gives P R := by
  intro c hc
  obtain ⟨hrest, hresult⟩ := h c hc
  rw [bind_apply]
  generalize p c = x at hrest hresult ⊢
  obtain ⟨a | a, d⟩ := x
  · exact ⟨hrest, fun _ hb => by cases hb⟩
  · exact k a (hresult a rfl) d hrest

theorem fail : (Parser.fail : Parser α).Gives P Q :=
  fun _ hc => ⟨hc, fun _ hb => by cases hb⟩

theorem reject (d : Diagnostic) : (Parser.reject d : Parser α).Gives P Q :=
  fun _ hc => ⟨hc, fun _ hb => by cases hb⟩

theorem peek {f : Kind → Parser β} (k : ∀ a, (f a).Gives P R) : (Parser.peek >>= f).Gives P R :=
  fun c hc => k c.peek c hc

theorem advance {f : Unit → Parser β} (h : (f ()).Gives P R) :
    (Parser.advance >>= f).Gives P R :=
  fun c hc => h c.advance hc.advance

theorem skip {f : Unit → Parser β} (k : Kind) (h : (f ()).Gives P R) :
    (Parser.skip k >>= f).Gives P R := by
  intro c hc
  rw [bind_apply, Parser.skip]
  by_cases hk : c.peek = k
  · rw [if_pos hk]
    exact h c.advance hc.advance
  · rw [if_neg hk]
    exact h c hc

theorem expect {f : Unit → Parser β} (k : Kind) (h : (f ()).Gives P R) :
    (Parser.expect k >>= f).Gives P R := by
  intro c hc
  rw [bind_apply, Parser.expect]
  by_cases hk : c.peek = k
  · rw [if_pos hk]
    exact h c.advance hc.advance
  · rw [if_neg hk]
    exact ⟨hc, fun _ hb => by cases hb⟩

/-- The text of a token that had to be of kind `k`. -/
theorem expectText {f : String → Parser β} {k : Kind} (hk : k ≠ .eof)
    (h : ∀ s, P ⟨k, s⟩ → (f s).Gives P R) :
    (Parser.expect k >>= fun _ => Parser.text >>= f).Gives P R := by
  intro c hc
  rw [bind_apply, Parser.expect]
  by_cases hp : c.peek = k
  · rw [if_pos hp]
    exact h _ (hc.advance.current (c.advance_kind.trans hp) hk) c.advance hc.advance
  · rw [if_neg hp]
    exact ⟨hc, fun _ hb => by cases hb⟩

end Parser.Gives

/-- What the parsers read is made of the tokens. -/
structure Nested.Derives (P : Token → Prop) (p : Nested) : Prop where
  expr (least : Precedence) : (p.expr least).Gives P (Expr.MadeOf P)
  block : p.block.Gives P (Stmt.MadeOfAll P)

namespace Nested

variable {p : Nested}

theorem moreItems_gives (hp : p.Derives P) (close : Kind) (n : Nat) :
    (p.moreItems close n).Gives P (Expr.MadeOfAll P) := by
  induction n with
  | zero => exact .fail
  | succ n ih =>
      refine .peek fun k => ?_
      split
      · refine .advance (.advance ((hp.expr _).bind fun e he => ?_))
        exact ih.bind fun es hes => .pure ⟨he, hes⟩
      · exact .expect close (.pure trivial)

theorem items_gives (hp : p.Derives P) (n : Nat) (close : Kind) :
    (p.items n close).Gives P (Expr.MadeOfAll P) := by
  refine .peek fun k => ?_
  split
  · exact .advance (.pure trivial)
  · refine .advance ((hp.expr _).bind fun e he => ?_)
    exact (moreItems_gives hp close n).bind fun es hes => .pure ⟨he, hes⟩

theorem moreParams_gives (n : Nat) :
    (moreParams n).Gives P fun names => ∀ name ∈ names, P ⟨.ident, name⟩ := by
  induction n with
  | zero => exact .fail
  | succ n ih =>
      refine .peek fun k => ?_
      split
      · refine .advance (.expectText (by decide) fun name hname => ?_)
        exact ih.bind fun names hnames => .pure (List.forall_mem_cons.mpr ⟨hname, hnames⟩)
      · exact .expect .rparen (.pure fun _ h => by cases h)

theorem params_gives (n : Nat) :
    (params n).Gives P fun names => ∀ name ∈ names, P ⟨.ident, name⟩ := by
  refine .peek fun k => ?_
  split
  · exact .advance (.pure fun _ h => by cases h)
  · refine .expectText (by decide) fun name hname => ?_
    exact (moreParams_gives n).bind fun names hnames =>
      .pure (List.forall_mem_cons.mpr ⟨hname, hnames⟩)

theorem conditional_gives (hp : p.Derives P) : p.conditional.Gives P (Expr.MadeOf P) := by
  refine .expect .lparen (.advance ((hp.expr _).bind fun test htest => ?_))
  refine .expect .rparen (.expect .lbrace (hp.block.bind fun yes hyes => ?_))
  have hno : p.alternative.Gives P fun no => (Expr.cond test yes no).MadeOf P := by
    refine .peek fun k => ?_
    split
    · exact .advance (.expect .lbrace (hp.block.bind fun no hno => .pure ⟨htest, hyes, hno⟩))
    · exact .pure ⟨htest, hyes⟩
  exact hno.bind fun no h => .pure h

theorem function_gives (hp : p.Derives P) (n : Nat) :
    (p.function n).Gives P (Expr.MadeOf P) := by
  refine .expect .lparen ((params_gives n).bind fun names hnames => ?_)
  exact .expect .lbrace (hp.block.bind fun body hbody => .pure ⟨hnames, hbody⟩)

theorem unary_gives (hp : p.Derives P) (op : UnaryOp) :
    (p.unaryBy op).Gives P (Expr.MadeOf P) :=
  .advance ((hp.expr _).bind fun _ he => .pure he)

theorem group_gives (hp : p.Derives P) : p.group.Gives P (Expr.MadeOf P) :=
  .advance ((hp.expr _).bind fun _ he => .expect .rparen (.pure he))

theorem operand_gives (hp : p.Derives P) (n : Nat) :
    (p.operand n).Gives P (Expr.MadeOf P) := by
  have array : (do let es ← p.items n .rbracket; return Expr.array es).Gives P (Expr.MadeOf P) :=
    (items_gives hp n .rbracket).bind fun _ h => .pure h
  intro c hc
  rw [operand_eq, kind_bind]
  cases hk : c.kind with
  | ident | string =>
      have ht := hc.current hk (by decide)
      exact ⟨hc, fun _ h => by cases h; exact ht⟩
  | int =>
      have ht := hc.current hk (by decide)
      simp only [integer, text_bind]
      cases hd : Text.readInt64? c.text with
      | none => exact Gives.reject _ c hc
      | some value => exact ⟨hc, fun _ h => by cases h; exact ⟨_, ht, hd⟩⟩
  | kwTrue | kwFalse => exact ⟨hc, fun _ h => by cases h; trivial⟩
  | bang | minus => exact unary_gives hp _ c hc
  | lparen => exact group_gives hp c hc
  | lbracket => exact array c hc
  | kwIf => exact conditional_gives hp c hc
  | kwFn => exact function_gives hp n c hc
  | _ => exact Gives.reject _ c hc

theorem extend_gives (hp : p.Derives P) (n : Nat) {left : Expr} (hl : left.MadeOf P)
    (s : Suffix) : (p.extend n left s).Gives P (Expr.MadeOf P) := by
  cases s with
  | operator op => exact .advance ((hp.expr _).bind fun _ he => .pure ⟨hl, he⟩)
  | call => exact (items_gives hp n .rparen).bind fun _ hes => .pure ⟨hl, hes⟩
  | index => exact .advance ((hp.expr _).bind fun _ he => .expect .rbracket (.pure ⟨hl, he⟩))

theorem climb_gives (hp : p.Derives P) (bound : Nat) (least : Precedence) (n : Nat) {left : Expr}
    (hl : left.MadeOf P) : (p.climb bound least n left).Gives P (Expr.MadeOf P) := by
  induction n generalizing left with
  | zero => exact .fail
  | succ n ih =>
      rw [climb_succ]
      refine .peek fun k => ?_
      split
      · exact .pure hl
      · next s _ =>
          split
          · exact .advance ((extend_gives hp bound hl s).bind fun _ h => ih h)
          · exact .pure hl

theorem expression_gives (hp : p.Derives P) (n : Nat) (least : Precedence) :
    (p.expression n least).Gives P (Expr.MadeOf P) :=
  (operand_gives hp n).bind fun _ h => climb_gives hp n least n h

/-- An expression, whether or not a `;` follows. -/
theorem terminated_gives (hp : p.Derives P) {f : Expr → Stmt}
    (hf : ∀ e : Expr, e.MadeOf P → (f e).MadeOf P) :
    (do let v ← p.expr .lowest; Parser.skip .semicolon; return f v).Gives P (Stmt.MadeOf P) :=
  (hp.expr _).bind fun e he => .skip _ (.pure (hf e he))

theorem statement_gives (hp : p.Derives P) : p.statement.Gives P (Stmt.MadeOf P) := by
  have bare : p.bare.Gives P (Stmt.MadeOf P) := terminated_gives hp fun _ he => he
  have ret : p.ret.Gives P (Stmt.MadeOf P) := .advance (terminated_gives hp fun _ he => he)
  have binding : p.binding.Gives P (Stmt.MadeOf P) := by
    refine .expectText (by decide) fun name hname => ?_
    exact .expect .assign (.advance (terminated_gives hp fun _ he => ⟨hname, he⟩))
  have block : (do let b ← p.block; return Stmt.block b).Gives P (Stmt.MadeOf P) :=
    hp.block.bind fun _ h => .pure h
  intro c hc
  rw [statement, kind_bind]
  cases c.kind with
  | kwLet => exact binding c hc
  | kwReturn => exact ret c hc
  | lbrace => exact block c hc
  | _ => exact bare c hc

theorem statements_give (hp : p.Derives P) (stop : Kind → Bool) (level n : Nat) {c : Cursor}
    (hc : c.Holds P) :
    Stmt.MadeOfAll P (p.statements stop level n c).1 ∧
      (p.statements stop level n c).2.Holds P := by
  induction n generalizing c with
  | zero => exact ⟨trivial, hc⟩
  | succ n ih =>
      cases hs : stop c.kind with
      | true => rw [p.statements_of_stop hs]; exact ⟨trivial, hc⟩
      | false =>
          have hgiven := statement_gives hp c hc
          rcases hst : p.statement c with ⟨_ | s, d⟩
          · rw [hst] at hgiven
            rw [p.statements_of_failed hs hst]
            have hrec := hgiven.rest.recover level
            split
            · exact ⟨trivial, hrec⟩
            · exact ih hrec.advance
          · rw [hst] at hgiven
            rw [p.statements_of_read hs hst]
            obtain ⟨hss, hrest⟩ := ih hgiven.rest.advance
            exact ⟨⟨hgiven.result s rfl, hss⟩, hrest⟩

theorem derives_within (n : Nat) : (within n).Derives P := by
  induction n with
  | zero => exact ⟨fun _ => .fail, .fail⟩
  | succ n ih =>
      refine ⟨fun least => expression_gives ih (n + 1) least, fun c hc => ?_⟩
      obtain ⟨hss, hrest⟩ := statements_give ih endsBlock c.depth (n + 1) hc.advance
      exact ⟨hrest, fun _ h => by cases h; exact hss⟩

end Nested

/-- Whether or not the tokens are well-formed, the program is made of them. -/
theorem Parsed.madeOf_ofTokens {ts : List Token} (h : ∀ t ∈ ts, t.kind ≠ .eof → P t) :
    Stmt.MadeOfAll P (ofTokens ts).program.statements := by
  have hgiven := Nested.statements_give (Nested.derives_within (ts.length + 1)) Nested.endsProgram 0
    (ts.length + 1) (c := Cursor.start ts) h
  rw [ofTokens_of_statements (Prod.eta _).symm]
  exact hgiven.1

end Sprig
