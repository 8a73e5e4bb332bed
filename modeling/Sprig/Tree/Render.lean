import Sprig.Text.Decimal
import Sprig.Tree.Basic

/-!
Trees as text.

Operators and index expressions are parenthesised, so the rendering shows how a source text was
grouped. It is not always source text again: a string is written without quotes, and a block
without braces.
-/

namespace Sprig

open Text

mutual

def Expr.render : Expr → String
  | .ident name => name
  | .int value => decimal value
  | .str value => value
  | .bool value => if value then "true" else "false"
  | .array items => "[" ++ ", ".intercalate (Expr.renderAll items) ++ "]"
  | .unary op operand => "(" ++ op.symbol ++ operand.render ++ ")"
  | .binary op left right => "(" ++ left.render ++ " " ++ op.symbol ++ " " ++ right.render ++ ")"
  | .cond test yes none => "if" ++ test.render ++ " " ++ Stmt.renderAll yes
  | .cond test yes (some no) =>
      "if" ++ test.render ++ " " ++ Stmt.renderAll yes ++ "else " ++ Stmt.renderAll no
  | .function params body => "fn(" ++ ", ".intercalate params ++ ") " ++ Stmt.renderAll body
  | .call callee args => callee.render ++ "(" ++ ", ".intercalate (Expr.renderAll args) ++ ")"
  | .index subject position => "(" ++ subject.render ++ "[" ++ position.render ++ "])"

def Expr.renderAll : List Expr → List String
  | [] => []
  | e :: es => e.render :: Expr.renderAll es

def Stmt.render : Stmt → String
  | .bind name value => "let " ++ name ++ " = " ++ value.render ++ ";"
  | .ret value => "return " ++ value.render ++ ";"
  | .expr value => value.render
  | .block body => Stmt.renderAll body

/-- Statements one after another, with nothing between them. -/
def Stmt.renderAll : List Stmt → String
  | [] => ""
  | s :: ss => s.render ++ Stmt.renderAll ss

end

def Program.render (p : Program) : String :=
  Stmt.renderAll p.statements

end Sprig
