import Sprig.Grammar.Cursor
import Sprig.Grammar.Precedence
import Sprig.Text.Decimal
import Sprig.Tree.Basic

/-!
Expressions.

What to read is looked up by the kind of a token, in one table for the forms that an expression
begins with and in another for those that continue it. The operators that tokens stand for have
tables of their own, and so do the precedences. If no form begins with a token, there is a
diagnostic; an operator that is not found makes its form fail without one, and a token that
continues nothing ends the expression.

Each form is a parser over the parsers for what it contains, `Nested`. A parser starts with the
cursor on the first token of its form and ends with the cursor on the last one. Loops carry a bound
on their number of turns; every turn takes a token, so a bound above the number of tokens is never
reached.
-/

namespace Sprig

open Sprig.Parser

/-- The forms that an expression begins with. -/
inductive Operand
  | name | integer | string | boolean | unary | group | array | conditional | function
  deriving DecidableEq

/-- The forms that continue an expression. -/
inductive Follower
  | operator | call | index
  deriving DecidableEq

namespace Kind

/-- The form that begins with a token of this kind. -/
def operand? : Kind → Option Operand
  | ident => some .name
  | int => some .integer
  | string => some .string
  | kwTrue | kwFalse => some .boolean
  | bang | minus => some .unary
  | lparen => some .group
  | lbracket => some .array
  | kwIf => some .conditional
  | kwFn => some .function
  | _ => none

/-- The form that continues an expression with a token of this kind. -/
def follower? : Kind → Option Follower
  | plus | minus | star | slash | eq | notEq | lt | gt => some .operator
  | lparen => some .call
  | lbracket => some .index
  | _ => none

def unaryOp? : Kind → Option UnaryOp
  | bang => some .not
  | minus => some .negate
  | _ => none

def binaryOp? : Kind → Option BinaryOp
  | plus => some .add
  | minus => some .sub
  | star => some .mul
  | slash => some .div
  | eq => some .eq
  | notEq => some .notEq
  | lt => some .lt
  | gt => some .gt
  | _ => none

end Kind

/-- The parsers for the constructs that others contain. -/
structure Nested where
  /-- An expression, continued by what binds tighter than the given precedence. -/
  expr : Precedence → Parser Expr
  block : Parser Block

namespace Nested

variable (p : Nested)

/-- The items after the first of a list, and the closing delimiter. -/
def moreItems (close : Kind) : Nat → Parser (List Expr)
  | 0 => fail
  | n + 1 => do
    if (← peek) = .comma then
      advance
      advance
      let item ← p.expr .lowest
      let items ← moreItems close n
      return item :: items
    else
      expect close
      return []

/-- Items separated by commas, from the opening delimiter to the closing one. -/
def items (n : Nat) (close : Kind) : Parser (List Expr) := do
  if (← peek) = close then
    advance
    return []
  else
    advance
    let item ← p.expr .lowest
    let items ← p.moreItems close n
    return item :: items

/-- The parameters after the first, and the closing parenthesis. -/
def moreParams : Nat → Parser (List String)
  | 0 => fail
  | n + 1 => do
    if (← peek) = .comma then
      advance
      expect .ident
      let name ← text
      let names ← moreParams n
      return name :: names
    else
      expect .rparen
      return []

/-- Parameter names between parentheses. -/
def params (n : Nat) : Parser (List String) := do
  if (← peek) = .rparen then
    advance
    return []
  else
    expect .ident
    let name ← text
    let names ← moreParams n
    return name :: names

def name : Parser Expr := do
  return .ident (← text)

def integer : Parser Expr := do
  let digits ← text
  match Text.readInt64? digits with
  | some value => return .int value
  | none => reject (.badInteger digits)

def string : Parser Expr := do
  return .str (← text)

def boolean : Parser Expr := do
  return .bool ((← kind) == .kwTrue)

/-- An operator in front of its operand. -/
def unary : Parser Expr := do
  match (← kind).unaryOp? with
  | none => fail
  | some op =>
    advance
    let operand ← p.expr .unary
    return .unary op operand

/-- Parentheses group and leave no trace in the tree. -/
def group : Parser Expr := do
  advance
  let e ← p.expr .lowest
  expect .rparen
  return e

def array (n : Nat) : Parser Expr := do
  return .array (← p.items n .rbracket)

def alternative : Parser (Option Block) := do
  if (← peek) = .kwElse then
    advance
    expect .lbrace
    let no ← p.block
    return some no
  else
    return none

def conditional : Parser Expr := do
  expect .lparen
  advance
  let test ← p.expr .lowest
  expect .rparen
  expect .lbrace
  let yes ← p.block
  let no ← p.alternative
  return .cond test yes no

def function (n : Nat) : Parser Expr := do
  expect .lparen
  let names ← params n
  expect .lbrace
  let body ← p.block
  return .function names body

def begin (n : Nat) : Operand → Parser Expr
  | .name => name
  | .integer => integer
  | .string => string
  | .boolean => boolean
  | .unary => p.unary
  | .group => p.group
  | .array => p.array n
  | .conditional => p.conditional
  | .function => p.function n

/-- What an expression begins with. -/
def operand (n : Nat) : Parser Expr := do
  let k ← kind
  match k.operand? with
  | some form => p.begin n form
  | none => reject (.noOperand k)

/-- Continue `left` with the operator on which the cursor stands, and with an operand that goes on
with what binds tighter than this operator. -/
def binary (left : Expr) : Parser Expr := do
  let k ← kind
  match k.binaryOp? with
  | none => fail
  | some op =>
    advance
    let right ← p.expr k.precedence
    return .binary op left right

def call (n : Nat) (left : Expr) : Parser Expr := do
  return .call left (← p.items n .rparen)

def index (left : Expr) : Parser Expr := do
  advance
  let position ← p.expr .lowest
  expect .rbracket
  return .index left position

def follow (n : Nat) (left : Expr) : Follower → Parser Expr
  | .operator => p.binary left
  | .call => p.call n left
  | .index => p.index left

/-- Continue `left` for as long as tokens follow that bind tighter than `least`. -/
def climb (bound : Nat) (least : Precedence) : Nat → Expr → Parser Expr
  | 0, _ => fail
  | n + 1, left => do
    let next ← peek
    if next ≠ .semicolon ∧ least < next.precedence then
      match next.follower? with
      | none => return left
      | some form =>
        advance
        let longer ← p.follow bound left form
        climb bound least n longer
    else
      return left

def expression (n : Nat) (least : Precedence) : Parser Expr := do
  let left ← p.operand n
  p.climb n least n left

end Nested

end Sprig
