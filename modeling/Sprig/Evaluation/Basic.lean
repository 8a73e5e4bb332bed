import Sprig.Evaluation.Builtins
import Sprig.Evaluation.Operators

/-!
Evaluation of trees.

Operands, items and arguments are evaluated from left to right. Blocks and branches share the scope
they stand in; only a call opens a new one, inside the scope of the closure and not of the caller.

`Expr.eval` and its companions follow the tree and leave calls to the given `Applier`.
`Value.applyWithin` supplies it: the number of calls that may still be nested decreases with each
closure that is entered, so every evaluation ends.
-/

namespace Sprig

abbrev Applier := Value → List Value → Step Value

/-- A name is looked up in the visible scopes and then among the builtins. -/
def resolve (i : ScopeId) (name : String) : Step Value := fun st =>
  match st.get? i name with
  | some v => (.ok v, st)
  | none =>
    match Builtin.ofName? name with
    | some b => (.ok (.builtin b), st)
    | none => (.error (.undefined name), st)

mutual

def Expr.eval (call : Applier) (i : ScopeId) : Expr → Eval Value
  | .ident name => (resolve i name).eval
  | .int n => pure (.int n)
  | .str s => Run.step fun st => st.newString s
  | .bool b => pure (.bool b)
  | .array items => do
    let vs ← Expr.evalAll call i items
    Run.step fun st => st.newArray vs
  | .unary op operand => do
    let v ← operand.eval call i
    (op.apply v).eval
  | .binary op left right => do
    let a ← left.eval call i
    let b ← right.eval call i
    (op.apply a b).eval
  | .cond test yes none => do
    let v ← test.eval call i
    if v.isTruthy then Stmt.evalAll call i yes .null else pure .null
  | .cond test yes (some no) => do
    let v ← test.eval call i
    if v.isTruthy then Stmt.evalAll call i yes .null else Stmt.evalAll call i no .null
  | .function params body => Run.step fun st => st.newClosure ⟨params, body, i⟩
  | .call callee args => do
    let f ← callee.eval call i
    let vs ← Expr.evalAll call i args
    (call f vs).eval
  | .index subject position => do
    let a ← subject.eval call i
    let b ← position.eval call i
    (a.index b).eval
termination_by structural e => e

def Expr.evalAll (call : Applier) (i : ScopeId) : List Expr → Eval (List Value)
  | [] => pure []
  | e :: es => do
    let v ← e.eval call i
    let vs ← Expr.evalAll call i es
    return v :: vs
termination_by structural es => es

def Stmt.eval (call : Applier) (i : ScopeId) : Stmt → Eval Value
  | .bind name value => do
    let v ← value.eval call i
    Run.step fun st => (.null, st.define i name v)
  | .ret value => do
    let v ← value.eval call i
    Run.stop (.returned v)
  | .expr value => value.eval call i
  | .block body => Stmt.evalAll call i body .null
termination_by structural s => s

/-- Statements yield the value of the last one, and `last` if there is none. -/
def Stmt.evalAll (call : Applier) (i : ScopeId) : List Stmt → Value → Eval Value
  | [], last => pure last
  | s :: ss, _ => do
    let v ← s.eval call i
    Stmt.evalAll call i ss v
termination_by structural ss => ss

end

/-- A return that has reached its call is the value of the call. -/
def Halt.settle : Except Halt Value → Except Fault Value
  | .ok v => .ok v
  | .error (.returned v) => .ok v
  | .error (.fault f) => .error f

namespace Closure

/-- Start a call: a new scope inside the closure's, with the arguments defined. -/
def enter (code : Closure) (args : List Value) (st : Store) : ScopeId × Store :=
  let (i, st) := { st with depth := st.depth + 1 }.newInner code.scope
  (i, st.defineAll i (code.params.zip args))

/-- Run the body in a scope of its own. -/
def run (call : Applier) (code : Closure) (args : List Value) : Step Value := fun st =>
  let (i, st) := code.enter args st
  let (result, st) := Stmt.evalAll call i code.body .null st
  (Halt.settle result, { st with depth := st.depth - 1 })

end Closure

/-- Call a value when `room` more calls may be nested; `limit` is what a call that does not fit
reports. The arguments are counted before the room is looked at. -/
def Value.applyWithin (limit : Nat) : Nat → Applier
  | room, .closure _ code, args =>
    if code.arity = args.length then
      match room with
      | 0 => Run.stop (.stackOverflow limit)
      | room + 1 => code.run (Value.applyWithin limit room) args
    else Run.stop (.arity code.arity args.length)
  | _, .builtin b, args => b.run args
  | _, v, _ => Run.stop (.notCallable v.type)
termination_by structural room => room

theorem Value.applyWithin_builtin (limit room : Nat) (b : Builtin) (args : List Value) :
    Value.applyWithin limit room (.builtin b) args = b.run args := by
  cases room <;> rfl

theorem Value.applyWithin_closure (limit room : Nat) (id : ObjectId) (code : Closure)
    (args : List Value) :
    Value.applyWithin limit room (.closure id code) args =
      if code.arity = args.length then
        match room with
        | 0 => Run.stop (.stackOverflow limit)
        | room + 1 => code.run (Value.applyWithin limit room) args
      else Run.stop (.arity code.arity args.length) := by
  cases room <;> rfl

/-- Call a value with at most `limit` calls running at a time. -/
def Value.apply (limit : Nat) : Applier := fun f args st =>
  Value.applyWithin limit (limit - st.depth) f args st

end Sprig
