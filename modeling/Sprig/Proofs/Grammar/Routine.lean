import Sprig.Grammar.Parsed

/-!
The routines of the grammar, and what each of them starts.

A `Routine` is a part of the grammar that can be started again while it is running, or a loop, whose
next turn counts as started by the turn before. Its `Plan` says what it does step by step: it looks
at the cursor, moves it by a token, records a diagnostic, and starts other routines. No bound occurs
in a plan. So it can be asked of plans what cannot be asked of bounded parsers, namely whether they
come to an end and where the routines stand that they start on the way.

A plan is tied to the parsers by `Plan.eval`, which takes the outcome of each routine from a parser.
-/

namespace Sprig

inductive Routine
  | program
  /-- A turn in a list of statements inside `level` braces, up to a token at which `stop` holds. -/
  | statements (stop : Kind → Bool) (level : Nat)
  /-- A turn in skipping the rest of a statement that is given up. -/
  | recovery (level : Nat)
  | statement
  | block
  | expr (least : Precedence)
  /-- A turn in continuing the expression `left`. -/
  | climb (least : Precedence) (left : Expr)
  /-- A turn in the items of a list, behind the first. -/
  | moreItems (close : Kind)
  /-- A turn in the parameters of a function, behind the first. -/
  | moreParams

/-- Whether skipping ends here, in a statement list that lies inside `level` braces. -/
def Cursor.atBoundary (c : Cursor) (level : Nat) : Bool :=
  c.kind == .eof || c.depth < level ||
    (c.depth == level && (c.kind == .semicolon || c.peek == .rbrace))

/-- What a routine reads. -/
@[reducible]
def Routine.Tree : Routine → Type
  | program => Program
  | statements _ _ | block => Block
  | recovery _ => Unit
  | statement => Stmt
  | expr _ | climb _ _ => Expr
  | moreItems _ => List Expr
  | moreParams => List String

/-- What is to be done next. A plan that stops with nothing has failed. -/
inductive Plan (α : Type)
  | stop (tree : Option α)
  | look (next : Cursor → Plan α)
  | move (next : Plan α)
  | record (d : Diagnostic) (next : Plan α)
  | drop (next : Plan α)
  | start (g : Routine) (next : Option g.Tree → Plan α)

namespace Plan

variable {α β : Type}

/-- Go on with what a plan has read, unless it has failed. -/
protected def bind : Plan α → (α → Plan β) → Plan β
  | stop none, _ => stop none
  | stop (some a), f => f a
  | look next, f => look fun c => (next c).bind f
  | move next, f => move (next.bind f)
  | record d next, f => record d (next.bind f)
  | drop next, f => drop (next.bind f)
  | start g next, f => start g fun r => (next r).bind f

instance : Monad Plan where
  pure a := stop (some a)
  bind := Plan.bind

def kind : Plan Kind := look fun c => pure c.kind

def text : Plan String := look fun c => pure c.text

def peek : Plan Kind := look fun c => pure c.peek

def depth : Plan Nat := look fun c => pure c.depth

def advance : Plan Unit := move (pure ())

def fail : Plan α := stop none

def reject (d : Diagnostic) : Plan α := record d (stop none)

/-- Count a statement that is given up. -/
def giveUp : Plan Unit := drop (pure ())

/-- Start a routine and fail if it fails. -/
def run (g : Routine) : Plan g.Tree := start g stop

/-- Start a routine and go on in either case. -/
def attempt (g : Routine) : Plan (Option g.Tree) := start g fun r => pure r

def expect (k : Kind) : Plan Unit :=
  look fun c => if c.peek = k then advance else reject (.unexpected k c.peek)

def skip (k : Kind) : Plan Unit :=
  look fun c => if c.peek = k then advance else pure ()

def moreItems (close : Kind) : Plan (List Expr) := do
  if (← peek) = .comma then
    advance
    advance
    let item ← run (.expr .lowest)
    let items ← run (.moreItems close)
    return item :: items
  else
    expect close
    return []

def items (close : Kind) : Plan (List Expr) := do
  if (← peek) = close then
    advance
    return []
  else
    advance
    let item ← run (.expr .lowest)
    let items ← run (.moreItems close)
    return item :: items

def moreParams : Plan (List String) := do
  if (← peek) = .comma then
    advance
    expect .ident
    let name ← text
    let names ← run .moreParams
    return name :: names
  else
    expect .rparen
    return []

def params : Plan (List String) := do
  if (← peek) = .rparen then
    advance
    return []
  else
    expect .ident
    let name ← text
    let names ← run .moreParams
    return name :: names

def name : Plan Expr := do
  return .ident (← text)

def integer : Plan Expr := do
  let digits ← text
  match Text.readInt64? digits with
  | some value => return .int value
  | none => reject (.badInteger digits)

def string : Plan Expr := do
  return .str (← text)

def boolean : Plan Expr := do
  return .bool ((← kind) == .kwTrue)

def unary : Plan Expr := do
  match (← kind).unaryOp? with
  | none => fail
  | some op =>
    advance
    let operand ← run (.expr .unary)
    return .unary op operand

def group : Plan Expr := do
  advance
  let e ← run (.expr .lowest)
  expect .rparen
  return e

def array : Plan Expr := do
  return .array (← items .rbracket)

def alternative : Plan (Option Block) := do
  if (← peek) = .kwElse then
    advance
    expect .lbrace
    let no ← run .block
    return some no
  else
    return none

def conditional : Plan Expr := do
  expect .lparen
  advance
  let test ← run (.expr .lowest)
  expect .rparen
  expect .lbrace
  let yes ← run .block
  let no ← alternative
  return .cond test yes no

def function : Plan Expr := do
  expect .lparen
  let names ← params
  expect .lbrace
  let body ← run .block
  return .function names body

def begin : Operand → Plan Expr
  | .name => name
  | .integer => integer
  | .string => string
  | .boolean => boolean
  | .unary => unary
  | .group => group
  | .array => array
  | .conditional => conditional
  | .function => function

def operand : Plan Expr := do
  let k ← kind
  match k.operand? with
  | some form => begin form
  | none => reject (.noOperand k)

def binary (left : Expr) : Plan Expr := do
  let k ← kind
  match k.binaryOp? with
  | none => fail
  | some op =>
    advance
    let right ← run (.expr k.precedence)
    return .binary op left right

def call (left : Expr) : Plan Expr := do
  return .call left (← items .rparen)

def index (left : Expr) : Plan Expr := do
  advance
  let position ← run (.expr .lowest)
  expect .rbracket
  return .index left position

def follow (left : Expr) : Follower → Plan Expr
  | .operator => binary left
  | .call => call left
  | .index => index left

def climb (least : Precedence) (left : Expr) : Plan Expr := do
  let next ← peek
  if next ≠ .semicolon ∧ least < next.precedence then
    match next.follower? with
    | none => return left
    | some form =>
      advance
      let longer ← follow left form
      run (.climb least longer)
  else
    return left

def expression (least : Precedence) : Plan Expr := do
  let left ← operand
  run (.climb least left)

def binding : Plan Stmt := do
  expect .ident
  let name ← text
  expect .assign
  advance
  let value ← run (.expr .lowest)
  skip .semicolon
  return .bind name value

def ret : Plan Stmt := do
  advance
  let value ← run (.expr .lowest)
  skip .semicolon
  return .ret value

def bare : Plan Stmt := do
  let value ← run (.expr .lowest)
  skip .semicolon
  return .expr value

def statement : Plan Stmt := do
  match ← kind with
  | .kwLet => binding
  | .kwReturn => ret
  | .lbrace => return .block (← run .block)
  | _ => bare

def recovery (level : Nat) : Plan Unit := look fun c =>
  if c.atBoundary level then pure ()
  else do
    advance
    run (.recovery level)

def statements (stop : Kind → Bool) (level : Nat) : Plan Block := do
  if stop (← kind) then return []
  else
    match ← attempt .statement with
    | some s =>
      advance
      let ss ← run (.statements stop level)
      return s :: ss
    | none =>
      run (.recovery level)
      giveUp
      if (← depth) < level then return []
      else
        advance
        run (.statements stop level)

def block : Plan Block := do
  let level ← depth
  advance
  run (.statements Nested.endsBlock level)

def program : Plan Program := do
  let ss ← run (.statements Nested.endsProgram 0)
  return ⟨ss⟩

end Plan

def Routine.plan : (g : Routine) → Plan g.Tree
  | program => Plan.program
  | statements stop level => Plan.statements stop level
  | recovery level => Plan.recovery level
  | statement => Plan.statement
  | block => Plan.block
  | expr least => Plan.expression least
  | climb least left => Plan.climb least left
  | moreItems close => Plan.moreItems close
  | moreParams => Plan.moreParams

/-- What a plan comes to if the routines that it starts come to what `H` says. -/
def Plan.eval {α : Type} (H : (g : Routine) → Parser g.Tree) : Plan α → Parser α
  | stop tree => fun c => (tree, c)
  | look next => fun c => (next c).eval H c
  | move next => fun c => next.eval H c.advance
  | record d next => fun c => next.eval H (c.record d)
  | drop next => fun c => next.eval H { c with dropped := c.dropped + 1 }
  | start g next => fun c => (next (H g c).1).eval H (H g c).2

namespace Plan

variable {α β : Type} {H : (g : Routine) → Parser g.Tree}

@[simp]
theorem eval_bind (s : Plan α) (f : α → Plan β) :
    (s >>= f).eval H = s.eval H >>= fun a => (f a).eval H := by
  funext c
  show (s.bind f).eval H c = _
  induction s generalizing c with
  | stop tree => cases tree <;> rfl
  | look next ih => exact ih c c
  | move next ih => exact ih c.advance
  | record d next ih => exact ih (c.record d)
  | drop next ih => exact ih _
  | start g next ih => exact ih _ _

@[simp]
theorem eval_pure (a : α) : (pure a : Plan α).eval H = pure a := rfl

@[simp]
theorem eval_kind : kind.eval H = Parser.kind := rfl

@[simp]
theorem eval_text : text.eval H = Parser.text := rfl

@[simp]
theorem eval_peek : peek.eval H = Parser.peek := rfl

@[simp]
theorem eval_advance : advance.eval H = Parser.advance := rfl

@[simp]
theorem eval_fail : (fail : Plan α).eval H = Parser.fail := rfl

@[simp]
theorem eval_reject (d : Diagnostic) : (reject d : Plan α).eval H = Parser.reject d := rfl

theorem eval_attempt_bind (g : Routine) (f : Option g.Tree → Plan α) (c : Cursor) :
    (attempt g >>= f).eval H c = (f (H g c).1).eval H (H g c).2 := rfl

@[simp]
theorem eval_ite (q : Prop) [Decidable q] (s t : Plan α) :
    (if q then s else t).eval H = if q then s.eval H else t.eval H := by
  split <;> rfl

@[simp]
theorem eval_expect (k : Kind) : (expect k).eval H = Parser.expect k := by
  funext c
  simp only [expect, eval, eval_ite, Parser.expect]
  split <;> rfl

@[simp]
theorem eval_skip (k : Kind) : (skip k).eval H = Parser.skip k := by
  funext c
  simp only [skip, eval, eval_ite, Parser.skip]
  split <;> rfl

end Plan

/-- Where recovery ends. -/
def Cursor.skipped (c : Cursor) (level : Nat) : Cursor :=
  { c with rest := (skipFrom level c.rest c.depth).1, depth := (skipFrom level c.rest c.depth).2 }

namespace Cursor

variable {level : Nat}

theorem skipped_of_boundary {c : Cursor} (h : c.atBoundary level) : c.skipped level = c := by
  obtain ⟨rest, depth, ds, n⟩ := c
  cases rest with
  | nil => rfl
  | cons t ts =>
      have hb : isBoundary level t ts depth := h
      simp [skipped, skipFrom, hb]

theorem skipped_of_not_boundary {c : Cursor} (h : c.atBoundary level = false) :
    c.skipped level = c.advance.skipped level := by
  obtain ⟨rest, depth, ds, n⟩ := c
  cases rest with
  | nil => rfl
  | cons t ts =>
      have hb : isBoundary level t ts depth = false := h
      simp [skipped, skipFrom, advance, hb]

end Cursor

namespace Nested

open Sprig.Parser

variable (p : Nested) (b k : Nat)

/-- What the routines come to with the nested parsers `p`, lists bounded by `b`, and the other loops
by `k`. -/
def does : (g : Routine) → Parser g.Tree
  | .program => fun c =>
      (some ⟨(p.statements endsProgram 0 k c).1⟩, (p.statements endsProgram 0 k c).2)
  | .statements stop level => fun c =>
      (some (p.statements stop level k c).1, (p.statements stop level k c).2)
  | .recovery level => fun c => (some (), c.skipped level)
  | .statement => p.statement
  | .block => p.block
  | .expr least => p.expr least
  | .climb least left => p.climb b least k left
  | .moreItems close => p.moreItems close b
  | .moreParams => moreParams b

@[simp]
theorem eval_expr (least : Precedence) :
    Plan.eval (α := Expr) (p.does b k) (.run (.expr least)) = p.expr least := rfl

@[simp]
theorem eval_block : Plan.eval (α := Block) (p.does b k) (.run .block) = p.block := rfl

@[simp]
theorem eval_moreItems (close : Kind) :
    Plan.eval (α := List Expr) (p.does b k) (.run (.moreItems close)) = p.moreItems close b := rfl

@[simp]
theorem eval_moreParams :
    Plan.eval (α := List String) (p.does b k) (.run .moreParams) = moreParams b := rfl

@[simp]
theorem eval_climb (least : Precedence) (left : Expr) :
    Plan.eval (α := Expr) (p.does b k) (.run (.climb least left)) = p.climb b least k left := rfl

@[simp]
theorem eval_items (close : Kind) : (Plan.items close).eval (p.does b k) = p.items b close := by
  simp [Plan.items, items]

theorem eval_params : Plan.params.eval (p.does b k) = params b := by
  simp [Plan.params, params]

theorem eval_integer : Plan.integer.eval (p.does b k) = integer := by
  simp only [Plan.integer, integer, Plan.eval_bind, Plan.eval_text]
  congr
  funext digits
  cases Text.readInt64? digits <;> rfl

theorem eval_unary : Plan.unary.eval (p.does b k) = p.unary := by
  simp only [Plan.unary, unary, Plan.eval_bind, Plan.eval_kind]
  congr
  funext kind
  cases kind.unaryOp? <;> simp

theorem eval_group : Plan.group.eval (p.does b k) = p.group := by
  simp [Plan.group, group]

theorem eval_alternative : Plan.alternative.eval (p.does b k) = p.alternative := by
  simp [Plan.alternative, alternative]

theorem eval_conditional : Plan.conditional.eval (p.does b k) = p.conditional := by
  simp [Plan.conditional, conditional, eval_alternative]

theorem eval_function : Plan.function.eval (p.does b k) = p.function b := by
  simp [Plan.function, function, eval_params]

theorem eval_begin (form : Operand) : (Plan.begin form).eval (p.does b k) = p.begin b form := by
  cases form with
  | integer => exact p.eval_integer b k
  | unary => exact p.eval_unary b k
  | group => exact p.eval_group b k
  | conditional => exact p.eval_conditional b k
  | function => exact p.eval_function b k
  | name | string | boolean | array =>
      simp [Plan.begin, begin, Plan.name, name, Plan.string, string, Plan.boolean, boolean,
        Plan.array, array]

theorem eval_operand : Plan.operand.eval (p.does b k) = p.operand b := by
  simp only [Plan.operand, operand, Plan.eval_bind, Plan.eval_kind]
  congr
  funext kind
  cases kind.operand? <;> simp [eval_begin]

theorem eval_binary (left : Expr) : (Plan.binary left).eval (p.does b k) = p.binary left := by
  simp only [Plan.binary, binary, Plan.eval_bind, Plan.eval_kind]
  congr
  funext kind
  cases kind.binaryOp? <;> simp

theorem eval_follow (left : Expr) (form : Follower) :
    (Plan.follow left form).eval (p.does b k) = p.follow b left form := by
  cases form with
  | operator => exact p.eval_binary b k left
  | call | index => simp [Plan.follow, follow, Plan.call, call, Plan.index, index]

/-- One turn of `climb` is what its plan says, and so on for the other loops. -/
theorem eval_climb_turn (least : Precedence) (left : Expr) :
    (Plan.climb least left).eval (p.does b k) = p.climb b least (k + 1) left := by
  simp only [Plan.climb, climb, Plan.eval_bind, Plan.eval_peek]
  congr
  funext kind
  cases kind.follower? <;> simp [eval_follow]

theorem eval_moreItems_turn (close : Kind) :
    (Plan.moreItems close).eval (p.does b k) = p.moreItems close (b + 1) := by
  simp [Plan.moreItems, moreItems]

theorem eval_moreParams_turn : Plan.moreParams.eval (p.does b k) = moreParams (b + 1) := by
  simp [Plan.moreParams, moreParams]

theorem eval_expression (least : Precedence) :
    (Plan.expression least).eval (p.does b b) = p.expression b least := by
  simp [Plan.expression, expression, eval_operand]

theorem eval_statement : Plan.statement.eval (p.does b k) = p.statement := by
  simp only [Plan.statement, statement, Plan.eval_bind, Plan.eval_kind]
  congr
  funext kind
  cases kind <;> simp [Plan.binding, binding, Plan.ret, ret, Plan.bare, bare]

theorem eval_recovery (level : Nat) (c : Cursor) :
    (Plan.recovery level).eval (p.does b k) c = p.does b k (.recovery level) c := by
  simp only [Plan.recovery, Plan.eval, Plan.eval_ite, does]
  cases hb : c.atBoundary level with
  | true => simp [Cursor.skipped_of_boundary hb]
  | false =>
      rw [Cursor.skipped_of_not_boundary hb]
      rfl

/-- One turn of a list of statements is what its plan says. -/
theorem eval_statements_turn (stop : Kind → Bool) (level : Nat) (c : Cursor) :
    (Plan.statements stop level).eval (p.does b k) c =
      p.does b (k + 1) (.statements stop level) c := by
  rw [Plan.statements, Plan.eval_bind, Plan.eval_kind, kind_bind]
  cases hs : stop c.kind with
  | true => simp [does, p.statements_of_stop hs]
  | false =>
      rcases hx : p.does b k .statement c with ⟨_ | s, d⟩
      · rw [if_neg Bool.false_ne_true, Plan.eval_attempt_bind, hx]
        show Plan.eval (p.does b k) (if (d.recover level).depth < level then _ else _)
          (d.recover level) = _
        simp only [does, p.statements_of_failed hs hx]
        split <;> rfl
      · rw [if_neg Bool.false_ne_true, Plan.eval_attempt_bind, hx]
        simp only [does, p.statements_of_read hs hx]
        rfl

theorem eval_block_body (n : Nat) (c : Cursor) :
    Plan.block.eval ((within n).does b (n + 1)) c = (within (n + 1)).does b k .block c := rfl

theorem eval_program (c : Cursor) :
    Plan.program.eval (p.does b k) c = p.does b k .program c := rfl

end Nested

end Sprig
