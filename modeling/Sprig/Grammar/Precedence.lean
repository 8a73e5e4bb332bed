import Sprig.Token.Basic

/-!
How tightly a token binds the expression on its left.

A token that cannot continue an expression has the lowest precedence. Binary operators associate to
the left, so an operand goes on only with what binds strictly tighter than the operator before it.
-/

namespace Sprig

inductive Precedence
  | lowest | equality | comparison | sum | product | unary | call | index
  deriving DecidableEq, Inhabited

namespace Precedence

def rank : Precedence → Nat
  | lowest => 1
  | equality => 2
  | comparison => 3
  | sum => 4
  | product => 5
  | unary => 6
  | call => 7
  | index => 8

instance : LT Precedence := ⟨fun p q => p.rank < q.rank⟩

instance (p q : Precedence) : Decidable (p < q) :=
  inferInstanceAs (Decidable (p.rank < q.rank))

theorem lt_iff {p q : Precedence} : p < q ↔ p.rank < q.rank := Iff.rfl

theorem not_lt_lowest (p : Precedence) : ¬ p < lowest := by
  cases p <;> decide

theorem lt_of_not_lt_of_lt {p q r : Precedence} (h : ¬ q < p) (hr : q < r) : p < r :=
  Nat.lt_of_le_of_lt (Nat.le_of_not_lt h) hr

end Precedence

/-- The precedence of a token that stands behind an expression. -/
def Kind.precedence : Kind → Precedence
  | eq | notEq => .equality
  | lt | gt => .comparison
  | plus | minus => .sum
  | slash | star => .product
  | lparen => .call
  | lbracket => .index
  | _ => .lowest

end Sprig
