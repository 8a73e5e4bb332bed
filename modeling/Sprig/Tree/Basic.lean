/-!
Syntax trees.

A program and a block are both a list of statements. Expressions contain statements through
function bodies and the branches of a conditional, so the two types are declared together.
Equality of trees is decidable; the decision follows the tree.
-/

namespace Sprig

inductive UnaryOp
  | not | negate
  deriving DecidableEq, Inhabited

inductive BinaryOp
  | add | sub | mul | div | lt | gt | eq | notEq
  deriving DecidableEq, Inhabited

def UnaryOp.symbol : UnaryOp → String
  | not => "!"
  | negate => "-"

def BinaryOp.symbol : BinaryOp → String
  | add => "+"
  | sub => "-"
  | mul => "*"
  | div => "/"
  | lt => "<"
  | gt => ">"
  | eq => "=="
  | notEq => "!="

mutual

inductive Expr
  | ident (name : String)
  | int (value : Int64)
  | str (value : String)
  | bool (value : Bool)
  | array (items : List Expr)
  | unary (op : UnaryOp) (operand : Expr)
  | binary (op : BinaryOp) (left right : Expr)
  /-- A missing alternative is not an empty one: it yields a value to show. -/
  | cond (test : Expr) (yes : List Stmt) (no : Option (List Stmt))
  | function (params : List String) (body : List Stmt)
  | call (callee : Expr) (args : List Expr)
  | index (subject position : Expr)

inductive Stmt
  | bind (name : String) (value : Expr)
  | ret (value : Expr)
  | expr (value : Expr)
  | block (body : List Stmt)

end

abbrev Block := List Stmt

instance : Inhabited Expr := ⟨.bool false⟩

instance : Inhabited Stmt := ⟨.block []⟩

structure Program where
  statements : Block
  deriving Inhabited

mutual

def Expr.beq : Expr → Expr → Bool
  | .ident a, .ident b => a == b
  | .int a, .int b => a == b
  | .str a, .str b => a == b
  | .bool a, .bool b => a == b
  | .array as, .array bs => Expr.beqList as bs
  | .unary o a, .unary p b => o == p && a.beq b
  | .binary o a b, .binary p c d => o == p && (a.beq c && b.beq d)
  | .cond a y none, .cond b z none => a.beq b && Stmt.beqList y z
  | .cond a y (some n), .cond b z (some m) => a.beq b && (Stmt.beqList y z && Stmt.beqList n m)
  | .function ps y, .function qs z => ps == qs && Stmt.beqList y z
  | .call a as, .call b bs => a.beq b && Expr.beqList as bs
  | .index a i, .index b j => a.beq b && i.beq j
  | _, _ => false
termination_by structural a => a

def Expr.beqList : List Expr → List Expr → Bool
  | [], [] => true
  | a :: as, b :: bs => a.beq b && Expr.beqList as bs
  | _, _ => false
termination_by structural as => as

def Stmt.beq : Stmt → Stmt → Bool
  | .bind x a, .bind y b => x == y && a.beq b
  | .ret a, .ret b => a.beq b
  | .expr a, .expr b => a.beq b
  | .block y, .block z => Stmt.beqList y z
  | _, _ => false
termination_by structural a => a

def Stmt.beqList : List Stmt → List Stmt → Bool
  | [], [] => true
  | a :: as, b :: bs => a.beq b && Stmt.beqList as bs
  | _, _ => false
termination_by structural as => as

end

mutual

theorem Expr.eq_of_beq : ∀ {a b : Expr}, a.beq b = true → a = b
  | .ident _, b, h => by cases b <;> simp_all [Expr.beq]
  | .int _, b, h => by cases b <;> simp_all [Expr.beq]
  | .str _, b, h => by cases b <;> simp_all [Expr.beq]
  | .bool _, b, h => by cases b <;> simp_all [Expr.beq]
  | .array as, b, h => by
      cases b <;> simp only [Expr.beq, Bool.false_eq_true] at h
      rw [Expr.eq_of_beqList h]
  | .unary o a, b, h => by
      cases b <;> simp only [Expr.beq, Bool.and_eq_true, beq_iff_eq, Bool.false_eq_true] at h
      rw [h.1, Expr.eq_of_beq h.2]
  | .binary o a b, e, h => by
      cases e <;> simp only [Expr.beq, Bool.and_eq_true, beq_iff_eq, Bool.false_eq_true] at h
      rw [h.1, Expr.eq_of_beq h.2.1, Expr.eq_of_beq h.2.2]
  | .cond a y none, b, h => by
      cases b with
      | cond b z m =>
          cases m <;> simp only [Expr.beq, Bool.and_eq_true, Bool.false_eq_true] at h
          rw [Expr.eq_of_beq h.1, Stmt.eq_of_beqList h.2]
      | _ => simp [Expr.beq] at h
  | .cond a y (some n), b, h => by
      cases b with
      | cond b z m =>
          cases m <;> simp only [Expr.beq, Bool.and_eq_true, Bool.false_eq_true] at h
          rw [Expr.eq_of_beq h.1, Stmt.eq_of_beqList h.2.1, Stmt.eq_of_beqList h.2.2]
      | _ => simp [Expr.beq] at h
  | .function ps y, b, h => by
      cases b <;> simp only [Expr.beq, Bool.and_eq_true, beq_iff_eq, Bool.false_eq_true] at h
      rw [h.1, Stmt.eq_of_beqList h.2]
  | .call a as, b, h => by
      cases b <;> simp only [Expr.beq, Bool.and_eq_true, Bool.false_eq_true] at h
      rw [Expr.eq_of_beq h.1, Expr.eq_of_beqList h.2]
  | .index a i, b, h => by
      cases b <;> simp only [Expr.beq, Bool.and_eq_true, Bool.false_eq_true] at h
      rw [Expr.eq_of_beq h.1, Expr.eq_of_beq h.2]

theorem Expr.eq_of_beqList : ∀ {as bs : List Expr}, Expr.beqList as bs = true → as = bs
  | [], bs, h => by cases bs <;> simp_all [Expr.beqList]
  | a :: as, bs, h => by
      cases bs <;> simp only [Expr.beqList, Bool.and_eq_true, Bool.false_eq_true] at h
      rw [Expr.eq_of_beq h.1, Expr.eq_of_beqList h.2]

theorem Stmt.eq_of_beq : ∀ {a b : Stmt}, a.beq b = true → a = b
  | .bind x a, b, h => by
      cases b <;> simp only [Stmt.beq, Bool.and_eq_true, beq_iff_eq, Bool.false_eq_true] at h
      rw [h.1, Expr.eq_of_beq h.2]
  | .ret a, b, h => by
      cases b <;> simp only [Stmt.beq, Bool.false_eq_true] at h
      rw [Expr.eq_of_beq h]
  | .expr a, b, h => by
      cases b <;> simp only [Stmt.beq, Bool.false_eq_true] at h
      rw [Expr.eq_of_beq h]
  | .block y, b, h => by
      cases b <;> simp only [Stmt.beq, Bool.false_eq_true] at h
      rw [Stmt.eq_of_beqList h]

theorem Stmt.eq_of_beqList : ∀ {as bs : List Stmt}, Stmt.beqList as bs = true → as = bs
  | [], bs, h => by cases bs <;> simp_all [Stmt.beqList]
  | a :: as, bs, h => by
      cases bs <;> simp only [Stmt.beqList, Bool.and_eq_true, Bool.false_eq_true] at h
      rw [Stmt.eq_of_beq h.1, Stmt.eq_of_beqList h.2]

end

mutual

theorem Expr.beq_self : ∀ a : Expr, a.beq a = true
  | .ident _ | .int _ | .str _ | .bool _ => by simp [Expr.beq]
  | .array as => by simp [Expr.beq, Expr.beqList_self as]
  | .unary _ a => by simp [Expr.beq, Expr.beq_self a]
  | .binary _ a b => by simp [Expr.beq, Expr.beq_self a, Expr.beq_self b]
  | .cond a y none => by simp [Expr.beq, Expr.beq_self a, Stmt.beqList_self y]
  | .cond a y (some n) => by
      simp [Expr.beq, Expr.beq_self a, Stmt.beqList_self y, Stmt.beqList_self n]
  | .function _ y => by simp [Expr.beq, Stmt.beqList_self y]
  | .call a as => by simp [Expr.beq, Expr.beq_self a, Expr.beqList_self as]
  | .index a i => by simp [Expr.beq, Expr.beq_self a, Expr.beq_self i]

theorem Expr.beqList_self : ∀ as : List Expr, Expr.beqList as as = true
  | [] => rfl
  | a :: as => by simp [Expr.beqList, Expr.beq_self a, Expr.beqList_self as]

theorem Stmt.beq_self : ∀ a : Stmt, a.beq a = true
  | .bind _ a => by simp [Stmt.beq, Expr.beq_self a]
  | .ret a | .expr a => by simp [Stmt.beq, Expr.beq_self a]
  | .block y => by simp [Stmt.beq, Stmt.beqList_self y]

theorem Stmt.beqList_self : ∀ as : List Stmt, Stmt.beqList as as = true
  | [] => rfl
  | a :: as => by simp [Stmt.beqList, Stmt.beq_self a, Stmt.beqList_self as]

end

instance : DecidableEq Expr := fun a b =>
  decidable_of_iff (a.beq b = true) ⟨Expr.eq_of_beq, fun h => h ▸ a.beq_self⟩

instance : DecidableEq Stmt := fun a b =>
  decidable_of_iff (a.beq b = true) ⟨Stmt.eq_of_beq, fun h => h ▸ a.beq_self⟩

instance : DecidableEq Program := fun p q =>
  decidable_of_iff (Stmt.beqList p.statements q.statements = true)
    ⟨fun h => by cases p; cases q; rw [Program.mk.injEq]; exact Stmt.eq_of_beqList h,
      fun h => h ▸ Stmt.beqList_self _⟩

end Sprig
