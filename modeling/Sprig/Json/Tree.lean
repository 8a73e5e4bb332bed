import Sprig.Json.Basic
import Sprig.Token.Basic
import Sprig.Tree.Basic

/-!
Tokens and trees as JSON documents.

A node is a record with one field, whose key says which kind of node it is. Nodes with several
parts hold them in a record in a fixed order, and a missing alternative is null.
-/

namespace Sprig

def UnaryOp.label : UnaryOp → String
  | not => "Bang"
  | negate => "Minus"

def BinaryOp.label : BinaryOp → String
  | add => "Plus"
  | sub => "Minus"
  | mul => "Asterisk"
  | div => "Slash"
  | lt => "Lt"
  | gt => "Gt"
  | eq => "Eq"
  | notEq => "NotEq"

/-- A node of the kind `key`. -/
def Json.node (key : String) (content : Json) : Json := .record [(key, content)]

/-- A statement list inside a record of its own. -/
def Json.block (statements : List Json) : Json := .record [("statements", .list statements)]

def Token.toJson (t : Token) : Json :=
  .record [("kind", .str t.kind.name), ("literal", .str t.text)]

mutual

def Expr.toJson : Expr → Json
  | .ident name => .node "Identifier" (.str name)
  | .int n => .node "IntegerLiteral" (.int n.toInt)
  | .str s => .node "StringLiteral" (.str s)
  | .bool b => .node "BooleanLiteral" (.bool b)
  | .array items => .node "ArrayLiteral" (.list (Expr.toJsonAll items))
  | .unary op operand =>
      .node "Prefix" (.record [("operator", .str op.label), ("right", operand.toJson)])
  | .binary op left right =>
      .node "Infix" (.record
        [("operator", .str op.label), ("left", left.toJson), ("right", right.toJson)])
  | .cond test yes none =>
      .node "If" (.record
        [("condition", test.toJson), ("consequence", .block (Stmt.toJsonAll yes)),
         ("alternative", .null)])
  | .cond test yes (some no) =>
      .node "If" (.record
        [("condition", test.toJson), ("consequence", .block (Stmt.toJsonAll yes)),
         ("alternative", .block (Stmt.toJsonAll no))])
  | .function params body =>
      .node "FunctionLiteral" (.record
        [("parameters", .list (params.map .str)), ("body", .block (Stmt.toJsonAll body))])
  | .call callee args =>
      .node "Call" (.record
        [("function", callee.toJson), ("arguments", .list (Expr.toJsonAll args))])
  | .index subject position =>
      .node "Index" (.record [("left", subject.toJson), ("index", position.toJson)])
termination_by structural e => e

def Expr.toJsonAll : List Expr → List Json
  | [] => []
  | e :: es => e.toJson :: Expr.toJsonAll es
termination_by structural es => es

def Stmt.toJson : Stmt → Json
  | .bind name value => .node "Let" (.record [("name", .str name), ("value", value.toJson)])
  | .ret value => .node "Return" value.toJson
  | .expr value => .node "Expression" value.toJson
  | .block body => .node "Block" (.block (Stmt.toJsonAll body))
termination_by structural s => s

def Stmt.toJsonAll : List Stmt → List Json
  | [] => []
  | s :: ss => s.toJson :: Stmt.toJsonAll ss
termination_by structural ss => ss

end

def Program.toJson (p : Program) : Json := .block (Stmt.toJsonAll p.statements)

end Sprig
