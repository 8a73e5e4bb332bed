import Sprig.Grammar.Expression

/-!
Statements, blocks and programs.

A malformed statement records one diagnostic and is left out; the list that contains it goes on
behind it. `Nested.within n` are the parsers for constructs nested fewer than `n` deep. Every nested
construct takes a token of its own, so `Cursor.program` can choose a bound that is never reached.
-/

namespace Sprig

open Sprig.Parser

namespace Nested

variable (p : Nested)

def binding : Parser Stmt := do
  expect .ident
  let name ← text
  expect .assign
  advance
  let value ← p.expr .lowest
  skip .semicolon
  return .bind name value

def ret : Parser Stmt := do
  advance
  let value ← p.expr .lowest
  skip .semicolon
  return .ret value

def bare : Parser Stmt := do
  let value ← p.expr .lowest
  skip .semicolon
  return .expr value

def statement : Parser Stmt := do
  match ← kind with
  | .kwLet => p.binding
  | .kwReturn => p.ret
  | .lbrace => return .block (← p.block)
  | _ => p.bare

theorem statement_of_kwLet {c : Cursor} (h : c.kind = .kwLet) : p.statement c = p.binding c := by
  rw [statement, kind_bind, h]

theorem statement_of_kwReturn {c : Cursor} (h : c.kind = .kwReturn) :
    p.statement c = p.ret c := by
  rw [statement, kind_bind, h]

theorem statement_of_lbrace {c : Cursor} (h : c.kind = .lbrace) :
    p.statement c = (p.block >>= fun b => pure (.block b)) c := by
  rw [statement, kind_bind, h]

theorem statement_of_other {c : Cursor} (hl : c.kind ≠ .kwLet) (hr : c.kind ≠ .kwReturn)
    (hb : c.kind ≠ .lbrace) : p.statement c = p.bare c := by
  rw [statement, kind_bind]
  generalize c.kind = k at hl hr hb ⊢
  cases k <;> first | rfl | contradiction

/-- The statements of a list inside `level` braces, up to a token at which `stop` holds. A malformed
one is skipped; if that leads out of the braces, the list ends there. -/
def statements (stop : Kind → Bool) (level : Nat) : Nat → Cursor → Block × Cursor
  | 0, c => ([], c)
  | n + 1, c =>
    if stop c.kind then ([], c)
    else
      match p.statement c with
      | (some s, c) =>
        let (ss, c) := statements stop level n c.advance
        (s :: ss, c)
      | (none, c) =>
        let c := c.recover level
        if c.depth < level then ([], c) else statements stop level n c.advance

section

variable {stop : Kind → Bool} {level n : Nat} {c d : Cursor}

theorem statements_of_stop (h : stop c.kind) : p.statements stop level n c = ([], c) := by
  cases n with
  | zero => rfl
  | succ n => rw [statements, if_pos h]

theorem statements_of_read {s : Stmt} (hs : stop c.kind = false)
    (h : p.statement c = (some s, d)) :
    p.statements stop level (n + 1) c =
      (s :: (p.statements stop level n d.advance).1, (p.statements stop level n d.advance).2) := by
  rw [statements, hs, if_neg Bool.false_ne_true, h]

theorem statements_of_failed (hs : stop c.kind = false) (h : p.statement c = (none, d)) :
    p.statements stop level (n + 1) c =
      if (d.recover level).depth < level then ([], d.recover level)
      else p.statements stop level n (d.recover level).advance := by
  rw [statements, hs, if_neg Bool.false_ne_true, h]

end

/-- A block ends at its closing brace, or at the end of the tokens. -/
def endsBlock (k : Kind) : Bool :=
  k == .rbrace || k == .eof

def endsProgram (k : Kind) : Bool :=
  k == .eof

/-- A block whose opening brace is the current token. -/
def body (n : Nat) : Parser Block := fun c =>
  let (ss, c) := p.statements endsBlock c.depth n c.advance
  (some ss, c)

theorem body_of_statements {n : Nat} {c d : Cursor} {ss : Block}
    (h : p.statements endsBlock c.depth n c.advance = (ss, d)) : p.body n c = (some ss, d) := by
  rw [body, h]

/-- The parsers for constructs nested fewer than `n` deep. -/
def within : Nat → Nested
  | 0 => ⟨fun _ => fail, fail⟩
  | n + 1 =>
    { expr := fun least c => (within n).expression (n + 1) least c
      block := fun c => (within n).body (n + 1) c }

end Nested

/-- Read statements up to the end of the tokens. -/
def Cursor.program (c : Cursor) : Program × Cursor :=
  let n := c.rest.length + 1
  let (ss, c) := (Nested.within n).statements Nested.endsProgram 0 n c
  (⟨ss⟩, c)

theorem Cursor.program_of_statements {c d : Cursor} {ss : Block}
    (h : (Nested.within (c.rest.length + 1)).statements Nested.endsProgram 0 (c.rest.length + 1) c =
      (ss, d)) : c.program = (⟨ss⟩, d) := by
  simp only [program, h]

end Sprig
