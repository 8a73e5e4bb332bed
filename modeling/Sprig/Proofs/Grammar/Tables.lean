import Sprig.Grammar.Expression

/-!
The tables by which expressions are read agree.

Which form continues an expression, which operator a token stands for and how tightly it binds are
looked up apart. Here the tables are shown to cover the same kinds of token, so that no operator is
looked up in vain and the loop over what follows an expression never meets a token that binds and
continues nothing. An expression is then read as if a single table gave, for each token, the suffix
that it starts together with its operator: `Kind.suffix?`.
-/

namespace Sprig

open Sprig.Parser

namespace Kind

/-- A token binds an expression exactly if it continues one. -/
theorem lowest_lt_precedence_iff (k : Kind) :
    Precedence.lowest < k.precedence ↔ k.follower?.isSome := by
  cases k <;> decide

theorem isSome_follower?_of_lt {k : Kind} {least : Precedence} (h : least < k.precedence) :
    k.follower?.isSome :=
  k.lowest_lt_precedence_iff.1 (Precedence.lt_of_not_lt_of_lt (Precedence.not_lt_lowest least) h)

/-- The tokens that continue an expression as operators are the binary operators. -/
theorem isSome_binaryOp?_iff (k : Kind) : k.binaryOp?.isSome ↔ k.follower? = some .operator := by
  cases k <;> decide

/-- The tokens that begin an expression as operators are the unary operators. -/
theorem isSome_unaryOp?_iff (k : Kind) : k.unaryOp?.isSome ↔ k.operand? = some .unary := by
  cases k <;> decide

/-- No binding is as loose as the lowest precedence, so what binds is not a `;`. -/
theorem ne_semicolon_of_lt {k : Kind} {least : Precedence} (h : least < k.precedence) :
    k ≠ .semicolon := by
  rintro rfl
  exact Precedence.not_lt_lowest least h

end Kind

def BinaryOp.precedence : BinaryOp → Precedence
  | add | sub => .sum
  | mul | div => .product
  | lt | gt => .comparison
  | eq | notEq => .equality

/-- Binary operators lie between the lowest precedence and that of the unary operators. -/
theorem BinaryOp.rank_precedence (op : BinaryOp) :
    Precedence.lowest.rank < op.precedence.rank ∧ op.precedence.rank < Precedence.unary.rank := by
  cases op <;> decide

/-- The precedence of an operator token is that of the operator it stands for. -/
theorem Kind.precedence_of_binaryOp {k : Kind} {op : BinaryOp} (h : k.binaryOp? = some op) :
    k.precedence = op.precedence := by
  cases k <;> cases h <;> rfl

/-- What can follow an expression. -/
inductive Suffix
  | operator (op : BinaryOp)
  | call
  | index
  deriving DecidableEq

def Suffix.precedence : Suffix → Precedence
  | operator op => op.precedence
  | call => .call
  | index => .index

namespace Kind

/-- The suffix that a token of this kind starts. -/
def suffix? (k : Kind) : Option Suffix :=
  match k.follower? with
  | some .operator => k.binaryOp?.map .operator
  | some .call => some .call
  | some .index => some .index
  | none => none

theorem isSome_suffix?_iff (k : Kind) : k.suffix?.isSome ↔ k.follower?.isSome := by
  have hop := k.isSome_binaryOp?_iff
  unfold suffix?
  split <;> simp_all

theorem precedence_of_suffix {k : Kind} {s : Suffix} (h : k.suffix? = some s) :
    k.precedence = s.precedence := by
  cases k <;> cases h <;> rfl

theorem not_lt_precedence_of_none {k : Kind} (h : k.suffix? = none) (least : Precedence) :
    ¬ least < k.precedence := by
  intro hl
  have hsome := k.isSome_suffix?_iff.2 (isSome_follower?_of_lt hl)
  rw [h] at hsome
  cases hsome

end Kind

namespace Nested

variable (p : Nested)

/-- The kinds of token that an expression starts with. -/
def startsOperand (k : Kind) : Bool := k.operand?.isSome

theorem operand_of_not_starts {c : Cursor} (h : startsOperand c.kind = false) (n : Nat) :
    p.operand n c = (none, c.record (.noOperand c.kind)) := by
  have hnone : c.kind.operand? = none := by simpa [startsOperand] using h
  rw [operand, kind_bind, hnone]
  rfl

/-- The operand of the unary operator `op`, on which the cursor stands. -/
def unaryBy (op : UnaryOp) : Parser Expr := do
  advance
  let operand ← p.expr .unary
  return .unary op operand

/-- Where an operator begins an expression, looking it up finds one. -/
theorem unary_of_operand {c : Cursor} (h : c.kind.operand? = some .unary) :
    ∃ op, c.kind.unaryOp? = some op ∧ p.unary c = p.unaryBy op c := by
  obtain ⟨op, hop⟩ := Option.isSome_iff_exists.1 (c.kind.isSome_unaryOp?_iff.2 h)
  refine ⟨op, hop, ?_⟩
  rw [unary, kind_bind, hop]
  rfl

/-- An operand by the kind of its first token. -/
theorem operand_eq (n : Nat) : p.operand n = (do
    match ← kind with
    | .ident => return .ident (← text)
    | .int => integer
    | .string => return .str (← text)
    | .kwTrue => return .bool true
    | .kwFalse => return .bool false
    | .bang => p.unaryBy .not
    | .minus => p.unaryBy .negate
    | .lparen => p.group
    | .lbracket => return .array (← p.items n .rbracket)
    | .kwIf => p.conditional
    | .kwFn => p.function n
    | k => reject (.noOperand k)) := by
  funext c
  rw [operand, kind_bind, kind_bind]
  cases hk : c.kind with
  | kwTrue | kwFalse =>
      change boolean c = _
      rw [boolean, kind_bind, hk]
      rfl
  | bang | minus =>
      obtain ⟨op, hop, hread⟩ := p.unary_of_operand (c := c) (by rw [hk]; rfl)
      rw [hk] at hop
      cases hop
      exact hread
  | _ => rfl

/-- Continue `left` with the suffix that the current token starts. -/
def extend (n : Nat) (left : Expr) : Suffix → Parser Expr
  | .operator op => do
    advance
    let right ← p.expr op.precedence
    return .binary op left right
  | .call => return .call left (← p.items n .rparen)
  | .index => do
    advance
    let position ← p.expr .lowest
    expect .rbracket
    return .index left position

theorem binary_of_kind {c : Cursor} {op : BinaryOp} (h : c.kind.binaryOp? = some op) (n : Nat)
    (left : Expr) : p.binary left c = p.extend n left (.operator op) c := by
  rw [binary, kind_bind, h, Kind.precedence_of_binaryOp h]
  rfl

/-- The form that continues an expression reads the suffix that its token starts. -/
theorem follow_of_suffix {c : Cursor} {s : Suffix} (h : c.kind.suffix? = some s) (n : Nat)
    (left : Expr) :
    ∃ form, c.kind.follower? = some form ∧ p.follow n left form c = p.extend n left s c := by
  unfold Kind.suffix? at h
  split at h
  · next hf =>
      obtain ⟨op, hop, rfl⟩ := Option.map_eq_some_iff.1 h
      exact ⟨.operator, hf, p.binary_of_kind hop n left⟩
  · next hf =>
      cases h
      exact ⟨.call, hf, rfl⟩
  · next hf =>
      cases h
      exact ⟨.index, hf, rfl⟩
  · cases h

/-- One turn of the loop, by the suffix that comes next. -/
theorem climb_succ (bound : Nat) (least : Precedence) (n : Nat) (left : Expr) :
    p.climb bound least (n + 1) left = do
      match (← peek).suffix? with
      | none => return left
      | some s =>
        if least < s.precedence then
          advance
          let longer ← p.extend bound left s
          p.climb bound least n longer
        else
          return left := by
  funext c
  rw [climb, peek_bind, peek_bind]
  cases hs : c.peek.suffix? with
  | none => rw [if_neg fun h => Kind.not_lt_precedence_of_none hs least h.2]
  | some s =>
      rw [Kind.precedence_of_suffix hs]
      by_cases hl : least < s.precedence
      · have hne := Kind.ne_semicolon_of_lt (Kind.precedence_of_suffix hs ▸ hl)
        obtain ⟨form, hf, hread⟩ := p.follow_of_suffix (c.advance_kind ▸ hs) bound left
        rw [c.advance_kind] at hf
        simp only [if_pos hl, if_pos (And.intro hne hl), hf, advance_bind]
        rw [bind_apply, bind_apply, hread]
      · simp only [if_neg hl, if_neg fun h : c.peek ≠ .semicolon ∧ _ => hl h.2]

end Nested

end Sprig
