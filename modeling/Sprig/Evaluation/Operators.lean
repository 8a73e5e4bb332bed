import Sprig.Evaluation.Run
import Sprig.Integer

/-!
Operators on values.

Integers and strings have operators of their own. On all other pairs only `==` and `!=` are
defined, and compare identity.
-/

namespace Sprig

def UnaryOp.apply (op : UnaryOp) (v : Value) : Step Value :=
  match op with
  | .not => pure (.bool !v.isTruthy)
  | .negate =>
    match v with
    | .int n =>
      match Integer.neg? n with
      | some m => pure (.int m)
      | none => Run.stop (.negateOverflow n)
    | v => Run.stop (.unknownUnary .negate v.type)

namespace BinaryOp

/-- The result of an operation on integers, which has to fit. -/
def exactly (op : BinaryOp) (a b : Int64) : Option Int64 → Except Fault Value
  | some n => .ok (.int n)
  | none => .error (.overflow op a b)

def applyInt (op : BinaryOp) (a b : Int64) : Except Fault Value :=
  match op with
  | add => op.exactly a b (Integer.add? a b)
  | sub => op.exactly a b (Integer.sub? a b)
  | mul => op.exactly a b (Integer.mul? a b)
  | div => if b = 0 then .error .divisionByZero else op.exactly a b (Integer.div? a b)
  | lt => .ok (.bool (a < b))
  | gt => .ok (.bool (b < a))
  | eq => .ok (.bool (a == b))
  | notEq => .ok (.bool (a != b))

def applyString (op : BinaryOp) (a b : String) : Step Value :=
  match op with
  | add => Run.step fun st => st.newString (a ++ b)
  | eq => pure (.bool (a == b))
  | notEq => pure (.bool (a != b))
  | _ => Run.stop (.unknownBinary op .string .string)

def applyOther (op : BinaryOp) (a b : Value) : Except Fault Value :=
  match op with
  | eq => .ok (.bool (a.same b))
  | notEq => .ok (.bool !a.same b)
  | _ =>
    if a.type = b.type then .error (.unknownBinary op a.type b.type)
    else .error (.typeMismatch op a.type b.type)

def apply (op : BinaryOp) (a b : Value) : Step Value :=
  match a, b with
  | .int m, .int n => fun st => (op.applyInt m n, st)
  | .str _ s, .str _ t => op.applyString s t
  | a, b => fun st => (op.applyOther a b, st)

end BinaryOp

/-- A position outside of the array, on either side, holds null. -/
def Value.index (subject position : Value) : Step Value :=
  match subject, position with
  | .array _ items, .int i =>
    match i.toInt with
    | .ofNat n => pure (items.getD n .null)
    | .negSucc _ => pure .null
  | subject, position => Run.stop (.notIndexable subject.type position.type)

end Sprig
