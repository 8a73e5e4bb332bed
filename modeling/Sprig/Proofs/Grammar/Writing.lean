import Sprig.Proofs.Grammar.Tables

/-!
The ways to write a tree as tokens.

`Writing.Listed` relates a list of statements to the token lists that spell it. An expression may
stand between any number of grouping parentheses. It has to stand between some where its position
would otherwise attach its operator differently, which is what `Position.Groups` says. The
parameter `req` says whether a `;` is required behind a statement or merely allowed. Only the kind
of a token matters, except for names and literals.

The second part restates `Position.Groups` by the two comparisons that reading an expression makes:
`Expr.Above` for the precedence it was entered with, and `Expr.Yields` for the token behind it.
-/

namespace Sprig

def UnaryOp.kind : UnaryOp → Kind
  | not => .bang
  | negate => .minus

def BinaryOp.kind : BinaryOp → Kind
  | add => .plus
  | sub => .minus
  | mul => .star
  | div => .slash
  | lt => .lt
  | gt => .gt
  | eq => .eq
  | notEq => .notEq

/-- Where an expression stands in the construct around it. -/
inductive Position
  | free
  /-- Behind a unary operator. -/
  | operand
  | callee
  /-- In front of an index. -/
  | subject
  | left (op : BinaryOp)
  | right (op : BinaryOp)

/-- Whether an expression at this position has to stand between parentheses. -/
def Position.Groups : Position → Expr → Prop
  | operand, .binary _ _ _ => True
  | callee, .binary _ _ _ | callee, .unary _ _ => True
  | subject, .binary _ _ _ | subject, .unary _ _ => True
  | left op, .binary inner _ _ => inner.precedence.rank < op.precedence.rank
  | right op, .binary inner _ _ => inner.precedence.rank ≤ op.precedence.rank
  | _, _ => False

namespace Writing

/-- What stands behind a statement. -/
inductive Terminated (req : Bool) : List Token → Prop
  | semicolon {t : Token} (ht : t.kind = .semicolon) : Terminated req [t]
  | nothing (h : req = false) : Terminated req []

/-- Further names, each behind a comma. -/
inductive MoreNames : List String → List Token → Prop
  | nil : MoreNames [] []
  | cons {k t : Token} {ns : List String} {w : List Token} (hk : k.kind = .comma)
      (ht : t.kind = .ident) (hw : MoreNames ns w) : MoreNames (t.text :: ns) (k :: t :: w)

/-- The names of parameters. -/
inductive Names : List String → List Token → Prop
  | nil : Names [] []
  | cons {t : Token} {ns : List String} {w : List Token} (ht : t.kind = .ident)
      (hw : MoreNames ns w) : Names (t.text :: ns) (t :: w)

mutual

/-- An expression without parentheses around it. -/
inductive Bare (req : Bool) : Expr → List Token → Prop
  | ident {t : Token} (ht : t.kind = .ident) : Bare req (.ident t.text) [t]
  | int {t : Token} {n : Int64} (ht : t.kind = .int) (hn : Text.readInt64? t.text = some n) :
      Bare req (.int n) [t]
  | str {t : Token} (ht : t.kind = .string) : Bare req (.str t.text) [t]
  | bool {t : Token} {b : Bool} (ht : t.kind = if b then .kwTrue else .kwFalse) :
      Bare req (.bool b) [t]
  | array {o z : Token} {es : List Expr} {w : List Token} (ho : o.kind = .lbracket)
      (hw : Items req es w) (hz : z.kind = .rbracket) : Bare req (.array es) (o :: (w ++ [z]))
  | unary {t : Token} {op : UnaryOp} {e : Expr} {w : List Token} (ht : t.kind = op.kind)
      (hw : Written req .operand e w) : Bare req (.unary op e) (t :: w)
  | binary {t : Token} {op : BinaryOp} {a b : Expr} {u w : List Token}
      (hu : Written req (.left op) a u) (ht : t.kind = op.kind)
      (hw : Written req (.right op) b w) : Bare req (.binary op a b) (u ++ t :: w)
  | cond {i o z : Token} {test : Expr} {yes : Block} {no : Option Block} {w y n : List Token}
      (hi : i.kind = .kwIf) (ho : o.kind = .lparen) (hw : Written req .free test w)
      (hz : z.kind = .rparen) (hy : Braced req yes y) (hn : Alternative req no n) :
      Bare req (.cond test yes no) (i :: o :: (w ++ z :: (y ++ n)))
  | function {f o z : Token} {ns : List String} {body : Block} {w y : List Token}
      (hf : f.kind = .kwFn) (ho : o.kind = .lparen) (hw : Names ns w) (hz : z.kind = .rparen)
      (hy : Braced req body y) : Bare req (.function ns body) (f :: o :: (w ++ z :: y))
  | call {o z : Token} {f : Expr} {args : List Expr} {u w : List Token}
      (hu : Written req .callee f u) (ho : o.kind = .lparen) (hw : Items req args w)
      (hz : z.kind = .rparen) : Bare req (.call f args) (u ++ o :: (w ++ [z]))
  | index {o z : Token} {a i : Expr} {u w : List Token} (hu : Written req .subject a u)
      (ho : o.kind = .lbracket) (hw : Written req .free i w) (hz : z.kind = .rbracket) :
      Bare req (.index a i) (u ++ o :: (w ++ [z]))

/-- An expression at a position, between as many parentheses as one likes and the position asks. -/
inductive Written (req : Bool) : Position → Expr → List Token → Prop
  | bare {pos : Position} {e : Expr} {w : List Token} (hg : ¬ pos.Groups e) (hw : Bare req e w) :
      Written req pos e w
  | group {pos : Position} {o z : Token} {e : Expr} {w : List Token} (ho : o.kind = .lparen)
      (hw : Written req .free e w) (hz : z.kind = .rparen) : Written req pos e (o :: (w ++ [z]))

/-- Items separated by commas. -/
inductive Items (req : Bool) : List Expr → List Token → Prop
  | nil : Items req [] []
  | cons {e : Expr} {es : List Expr} {u w : List Token} (hu : Written req .free e u)
      (hw : MoreItems req es w) : Items req (e :: es) (u ++ w)

/-- Further items, each behind a comma. -/
inductive MoreItems (req : Bool) : List Expr → List Token → Prop
  | nil : MoreItems req [] []
  | cons {k : Token} {e : Expr} {es : List Expr} {u w : List Token} (hk : k.kind = .comma)
      (hu : Written req .free e u) (hw : MoreItems req es w) :
      MoreItems req (e :: es) (k :: (u ++ w))

/-- What may follow the first branch of a conditional. -/
inductive Alternative (req : Bool) : Option Block → List Token → Prop
  | none : Alternative req none []
  | some {e : Token} {ss : Block} {w : List Token} (he : e.kind = .kwElse)
      (hw : Braced req ss w) : Alternative req (some ss) (e :: w)

/-- A block between its braces. -/
inductive Braced (req : Bool) : Block → List Token → Prop
  | braces {o z : Token} {ss : Block} {w : List Token} (ho : o.kind = .lbrace)
      (hw : Listed req ss w) (hz : z.kind = .rbrace) : Braced req ss (o :: (w ++ [z]))

inductive Stated (req : Bool) : Stmt → List Token → Prop
  | bind {l t a : Token} {e : Expr} {w z : List Token} (hl : l.kind = .kwLet)
      (ht : t.kind = .ident) (ha : a.kind = .assign) (hw : Written req .free e w)
      (hz : Terminated req z) : Stated req (.bind t.text e) (l :: t :: a :: (w ++ z))
  | ret {r : Token} {e : Expr} {w z : List Token} (hr : r.kind = .kwReturn)
      (hw : Written req .free e w) (hz : Terminated req z) : Stated req (.ret e) (r :: (w ++ z))
  | expr {e : Expr} {w z : List Token} (hw : Written req .free e w) (hz : Terminated req z) :
      Stated req (.expr e) (w ++ z)
  | block {ss : Block} {w : List Token} (hw : Braced req ss w) : Stated req (.block ss) w

/-- Statements one after another. -/
inductive Listed (req : Bool) : Block → List Token → Prop
  | nil : Listed req [] []
  | cons {s : Stmt} {ss : Block} {u w : List Token} (hu : Stated req s u) (hw : Listed req ss w) :
      Listed req (s :: ss) (u ++ w)

end

variable {req : Bool}

theorem Bare.ne_nil {e : Expr} {w : List Token} (h : Bare req e w) : w ≠ [] := by
  cases h <;> simp

theorem Written.ne_nil {pos : Position} {e : Expr} {w : List Token} (h : Written req pos e w) :
    w ≠ [] := by
  cases h with
  | bare hg hw => exact hw.ne_nil
  | group ho hw hz => exact List.cons_ne_nil _ _

theorem Stated.ne_nil {s : Stmt} {w : List Token} (h : Stated req s w) : w ≠ [] := by
  cases h with
  | bind | ret => exact List.cons_ne_nil _ _
  | expr hw hz => exact List.append_ne_nil_of_left_ne_nil hw.ne_nil _
  | block hw =>
      cases hw
      exact List.cons_ne_nil _ _

end Writing

/-- The token that starts a suffix. -/
def Suffix.kind : Suffix → Kind
  | operator op => op.kind
  | call => .lparen
  | index => .lbracket

theorem Kind.eq_of_suffix {k : Kind} {s : Suffix} (h : k.suffix? = some s) : k = s.kind := by
  cases k <;> cases h <;> rfl

theorem Suffix.kind_ne_eof (s : Suffix) : s.kind ≠ .eof := by
  cases s with
  | operator op => cases op <;> decide
  | call | index => decide

theorem BinaryOp.suffix?_kind (op : BinaryOp) : op.kind.suffix? = some (.operator op) := by
  cases op <;> rfl

theorem BinaryOp.precedence_kind (op : BinaryOp) : op.kind.precedence = op.precedence :=
  Kind.precedence_of_suffix op.suffix?_kind

namespace Expr

/-- Written bare, the expression is read as a whole when it is entered with `least`. -/
def Above (least : Precedence) : Expr → Prop
  | .binary op _ _ => least < op.precedence
  | _ => True

/-- Written bare, the expression leaves a token of kind `k` behind it to what is around it. -/
def Yields (k : Kind) : Expr → Prop
  | .binary op _ _ => ¬ op.precedence < k.precedence
  | .unary _ _ => ¬ Precedence.unary < k.precedence
  | _ => True

variable {e : Expr} {k : Kind} {least : Precedence}

theorem yields_of_above (h : e.Above least) (hk : ¬ least < k.precedence)
    (hl : ¬ Precedence.unary < least) : e.Yields k := by
  cases e with
  | binary op a b =>
      rw [Above, Precedence.lt_iff] at h
      rw [Precedence.lt_iff] at hk
      rw [Yields, Precedence.lt_iff]
      omega
  | unary op a =>
      rw [Precedence.lt_iff] at hk hl
      rw [Yields, Precedence.lt_iff]
      omega
  | _ => trivial

theorem above_of_yields (h : e.Yields k) (hk : least < k.precedence) : e.Above least := by
  cases e with
  | binary op a b =>
      rw [Precedence.lt_iff] at hk
      rw [Yields, Precedence.lt_iff] at h
      rw [Above, Precedence.lt_iff]
      omega
  | _ => trivial

end Expr

namespace Position

/-- The precedence with which an expression at a position is entered, where one is entered. -/
inductive Entered : Position → Precedence → Prop
  | free : Entered free .lowest
  | operand : Entered operand .unary
  | right (op : BinaryOp) : Entered (right op) op.precedence

variable {pos : Position} {least : Precedence} {e : Expr}

theorem Entered.not_unary_lt (h : pos.Entered least) : ¬ Precedence.unary < least := by
  cases h with
  | free | operand => decide
  | right op =>
      have := op.rank_precedence
      rw [Precedence.lt_iff]
      omega

theorem Entered.not_groups_iff (h : pos.Entered least) : ¬ pos.Groups e ↔ e.Above least := by
  cases h with
  | free =>
      cases e with
      | binary op a b => exact iff_of_true id op.rank_precedence.1
      | _ => exact iff_of_true id trivial
  | operand =>
      cases e with
      | binary op a b =>
          refine iff_of_false (fun h => h trivial) ?_
          exact Nat.lt_asymm op.rank_precedence.2
      | _ => exact iff_of_true id trivial
  | right op =>
      cases e with
      | binary inner a b => exact Nat.not_le
      | _ => exact iff_of_true id trivial

theorem not_groups_left_iff {op : BinaryOp} : ¬ (left op).Groups e ↔ e.Yields op.kind := by
  cases e with
  | binary inner a b =>
      rw [Expr.Yields, op.precedence_kind]
      exact Iff.rfl
  | unary inner a =>
      rw [Expr.Yields, op.precedence_kind]
      exact iff_of_true id (Nat.lt_asymm op.rank_precedence.2)
  | _ => exact iff_of_true id trivial

/-- Calls and indices bind tighter than all operators, so no operator yields to them. -/
theorem not_groups_callee_iff {k : Kind} (hk : Precedence.unary < k.precedence) :
    ¬ callee.Groups e ↔ e.Yields k := by
  cases e with
  | binary op a b =>
      exact iff_of_false (fun h => h trivial)
        (fun h => h (Nat.lt_trans op.rank_precedence.2 hk))
  | unary op a => exact iff_of_false (fun h => h trivial) (fun h => h hk)
  | _ => exact iff_of_true id trivial

theorem groups_subject : subject.Groups e ↔ callee.Groups e := by
  cases e <;> rfl

end Position

end Sprig
