import Sprig.Evaluation.Basic

/-!
What an evaluation has to show.

A program shows the value of its last statement, unless that is a binding or there is none. Blocks
and the taken branch of a conditional are looked into in the same way. A conditional without a
branch to take shows null, and a return at the top shows its value.
-/

namespace Sprig

mutual

def Expr.shown (call : Applier) (i : ScopeId) : Expr → Eval (Option Value)
  | .cond test yes none => do
    let v ← test.eval call i
    if v.isTruthy then Stmt.shownAll call i yes none else pure (some .null)
  | .cond test yes (some no) => do
    let v ← test.eval call i
    if v.isTruthy then Stmt.shownAll call i yes none else Stmt.shownAll call i no none
  | e => do
    let v ← e.eval call i
    return some v
termination_by structural e => e

def Stmt.shown (call : Applier) (i : ScopeId) : Stmt → Eval (Option Value)
  | .bind name value => do
    let _ ← (Stmt.bind name value).eval call i
    return none
  | .ret value => do
    let v ← (Stmt.ret value).eval call i
    return some v
  | .expr value => value.shown call i
  | .block body => Stmt.shownAll call i body none
termination_by structural s => s

def Stmt.shownAll (call : Applier) (i : ScopeId) : List Stmt → Option Value → Eval (Option Value)
  | [], last => pure last
  | s :: ss, _ => do
    let shown ← s.shown call i
    Stmt.shownAll call i ss shown
termination_by structural ss => ss

end

namespace Program

/-- Run a program in scope `i` and say what it shows. -/
def shown (limit : Nat) (i : ScopeId) (p : Program) : Step (Option Value) := fun st =>
  match Stmt.shownAll (Value.apply limit) i p.statements none st with
  | (.ok v, st) => (.ok v, st)
  | (.error (.returned v), st) => (.ok (some v), st)
  | (.error (.fault f), st) => (.error f, st)

/-- The value of a program; one that shows nothing has the value null. -/
def eval (limit : Nat) (i : ScopeId) (p : Program) : Step Value := do
  let v ← p.shown limit i
  return v.getD .null

end Program

/-- The number of calls that may be nested unless another number is given. -/
def defaultLimit : Nat := 1000

end Sprig
