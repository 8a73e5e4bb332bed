import Mathlib.Computability.StateTransition
import Sprig.Proofs.Evaluation.Effects

/-!
Evaluation in single steps.

A state of the machine says what is to be evaluated, what goes on with its value, and in which
store. A step looks at one node, one frame or one call. Nothing limits the number of steps: a call
is entered whenever the store counts fewer than `limit` running calls, and is left by its own frame.
So the machine can be asked what the evaluator as a total function cannot: whether a run ends, and
what holds at every point of it.

The machine follows what a run shows. Whoever uses a value takes null for nothing.
-/

namespace Sprig

/-- What a builtin does once its arguments have been counted. The arguments are taken by position;
there is no result where a position is outside of the list. -/
def Builtin.body (b : Builtin) (args : List Value) : Option (Step Value) :=
  match b with
  | len => do return runLen (← args[0]?)
  | first => do return runFirst (← args[0]?)
  | last => do return runLast (← args[0]?)
  | push => do return runPush (← args[0]?) (← args[1]?)
  | puts => some (runPuts args)
  | typeOf => do
    let v ← args[0]?
    return Run.step fun st => st.newString v.type.name
  | help => some (runHelp args)

/-- Count the arguments, for the builtins that have a fixed number, and go on with the body. -/
def Builtin.invoke (b : Builtin) (args : List Value) : Option (Step Value) :=
  match b.arity with
  | some n => if n = args.length then b.body args else some (Run.stop (.arity n args.length))
  | none => b.body args

namespace Machine

/-- What the values of a list of expressions are for. -/
inductive Use
  | array
  | arguments (callee : Value)

/-- What goes on with a value, named by the part that is being evaluated. -/
inductive Frame
  | item (i : ScopeId) (use : Use) (done : List Value) (rest : List Expr)
  | operand (op : UnaryOp)
  | left (i : ScopeId) (op : BinaryOp) (right : Expr)
  | right (op : BinaryOp) (left : Value)
  | test (i : ScopeId) (yes : Block) (no : Option Block)
  | callee (i : ScopeId) (args : List Expr)
  | subject (i : ScopeId) (position : Expr)
  | position (subject : Value)
  | bound (i : ScopeId) (name : String)
  | returned
  | statement (i : ScopeId) (rest : List Stmt)
  /-- The body of a closure. -/
  | body

/-- What comes next: a part of the tree in a scope, a call, or a result for the topmost frame. -/
inductive Focus
  | expr (i : ScopeId) (e : Expr)
  | items (i : ScopeId) (use : Use) (done : List Value) (rest : List Expr)
  | stmt (i : ScopeId) (s : Stmt)
  | stmts (i : ScopeId) (ss : List Stmt) (last : Option Value)
  | call (f : Value) (args : List Value)
  | result (r : Except Halt (Option Value))

structure State where
  focus : Focus
  stack : List Frame
  store : Store

/-- Do all of `x` at once. -/
def ofRun (x : Eval (Option Value)) (k : List Frame) (st : Store) : State :=
  ⟨.result (x st).1, k, (x st).2⟩

def expr (i : ScopeId) (k : List Frame) (st : Store) : Expr → State
  | .ident name => ofRun (some <$> (resolve i name).eval) k st
  | .int n => ofRun (pure (some (.int n))) k st
  | .str s => ofRun (some <$> Run.step fun st => st.newString s) k st
  | .bool b => ofRun (pure (some (.bool b))) k st
  | .array items => ⟨.items i .array [] items, k, st⟩
  | .unary op e => ⟨.expr i e, .operand op :: k, st⟩
  | .binary op a b => ⟨.expr i a, .left i op b :: k, st⟩
  | .cond test yes no => ⟨.expr i test, .test i yes no :: k, st⟩
  | .function params body =>
    ofRun (some <$> Run.step fun st => st.newClosure ⟨params, body, i⟩) k st
  | .call callee args => ⟨.expr i callee, .callee i args :: k, st⟩
  | .index a b => ⟨.expr i a, .subject i b :: k, st⟩

def stmt (i : ScopeId) (k : List Frame) (st : Store) : Stmt → State
  | .bind name value => ⟨.expr i value, .bound i name :: k, st⟩
  | .ret value => ⟨.expr i value, .returned :: k, st⟩
  | .expr value => ⟨.expr i value, k, st⟩
  | .block body => ⟨.stmts i body none, k, st⟩

/-- All values of a list are there. -/
def Use.finish (vs : List Value) (k : List Frame) (st : Store) : Use → State
  | .array => ofRun (some <$> Run.step fun st => st.newArray vs) k st
  | .arguments f => ⟨.call f vs, k, st⟩

/-- A call of a closure counts as running while its body does. -/
def call (limit : Nat) (args : List Value) (k : List Frame) (st : Store) : Value → Option State
  | .closure _ code =>
    if code.arity = args.length then
      if st.depth < limit then
        some ⟨.stmts (code.enter args st).1 code.body none, .body :: k, (code.enter args st).2⟩
      else some (ofRun (Run.stop (.fault (.stackOverflow limit))) k st)
    else some (ofRun (Run.stop (.fault (.arity code.arity args.length))) k st)
  | .builtin b => (b.invoke args).map fun x => ofRun (some <$> x.eval) k st
  | v => some (ofRun (Run.stop (.fault (.notCallable v.type))) k st)

/-- Hand a value, or nothing, to a frame. -/
def resume (shown : Option Value) (k : List Frame) (st : Store) : Frame → State
  | .item i use done rest => ⟨.items i use (done ++ [.orNull shown]) rest, k, st⟩
  | .operand op => ofRun (some <$> (op.apply (.orNull shown)).eval) k st
  | .left i op right => ⟨.expr i right, .right op (.orNull shown) :: k, st⟩
  | .right op left => ofRun (some <$> (op.apply left (.orNull shown)).eval) k st
  | .test i yes no =>
    if (Value.orNull shown).isTruthy then ⟨.stmts i yes none, k, st⟩
    else match no with
      | some no => ⟨.stmts i no none, k, st⟩
      | none => ofRun (pure (some .null)) k st
  | .callee i args => ⟨.items i (.arguments (.orNull shown)) [] args, k, st⟩
  | .subject i position => ⟨.expr i position, .position (.orNull shown) :: k, st⟩
  | .position subject => ofRun (some <$> (subject.index (.orNull shown)).eval) k st
  | .bound i name => ofRun (Run.step fun st => (none, st.define i name (.orNull shown))) k st
  | .returned => ofRun (Run.stop (.returned (.orNull shown))) k st
  | .statement i rest => ⟨.stmts i rest shown, k, st⟩
  | .body => ⟨.result (.ok (some (.orNull shown))), k, { st with depth := st.depth - 1 }⟩

/-- What stops an evaluation passes the frames. At the body of a call a return becomes the value of
the call. -/
def unwind (h : Halt) (k : List Frame) (st : Store) : Frame → State
  | .body => ⟨.result (((Halt.settle (.error h)).mapError .fault).map some), k,
      { st with depth := st.depth - 1 }⟩
  | _ => ⟨.result (.error h), k, st⟩

/-- There is no next state once a result has met no more frames, nor where a builtin takes an
argument that is not there. -/
def step (limit : Nat) : State → Option State
  | ⟨.expr i e, k, st⟩ => some (expr i k st e)
  | ⟨.items i use done (e :: rest), k, st⟩ => some ⟨.expr i e, .item i use done rest :: k, st⟩
  | ⟨.items _ use done [], k, st⟩ => some (use.finish done k st)
  | ⟨.stmt i s, k, st⟩ => some (stmt i k st s)
  | ⟨.stmts i (s :: ss) _, k, st⟩ => some ⟨.stmt i s, .statement i ss :: k, st⟩
  | ⟨.stmts _ [] last, k, st⟩ => some (ofRun (pure last) k st)
  | ⟨.call f args, k, st⟩ => call limit args k st f
  | ⟨.result (.ok shown), fr :: k, st⟩ => some (resume shown k st fr)
  | ⟨.result (.error h), fr :: k, st⟩ => some (unwind h k st fr)
  | ⟨.result _, [], _⟩ => none

/-- The machine gets from one state to the other. -/
abbrev Reaches (limit : Nat) : State → State → Prop := StateTransition.Reaches (step limit)

end Machine

end Sprig
