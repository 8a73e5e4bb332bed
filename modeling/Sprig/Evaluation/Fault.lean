import Sprig.Value.Text

/-!
Why an evaluation stops early.

A fault ends the whole run. A return ends the running call: it travels outward like a fault up to
the call, which turns it into the call's value.
-/

namespace Sprig

/-- What a builtin can have against its arguments. -/
inductive BuiltinFault
  | unsupported (got : ValueType)
  | notArray (got : ValueType)
  /-- The manual has no page on what was asked for, given here as shown inside text. -/
  | unknownTopic (topic : String)
  | tooManyArguments (got : Nat)
  deriving DecidableEq

inductive Fault
  | typeMismatch (op : BinaryOp) (left right : ValueType)
  | unknownUnary (op : UnaryOp) (operand : ValueType)
  | unknownBinary (op : BinaryOp) (left right : ValueType)
  | undefined (name : String)
  | notCallable (got : ValueType)
  | arity (expected got : Nat)
  | divisionByZero
  | negateOverflow (operand : Int64)
  | overflow (op : BinaryOp) (left right : Int64)
  | notIndexable (subject position : ValueType)
  | builtin (b : Builtin) (cause : BuiltinFault)
  | stackOverflow (limit : Nat)
  deriving DecidableEq

inductive Halt
  | fault (f : Fault)
  | returned (v : Value)

def BuiltinFault.message : BuiltinFault → String
  | unsupported got => "argument not supported, got " ++ got.name
  | notArray got => "argument must be ARRAY, got " ++ got.name
  | unknownTopic topic => "unknown topic " ++ topic ++ ", expected \"let\" or \"return\""
  | tooManyArguments got => "expected at most 1 argument, got " ++ got.repr

def Fault.message : Fault → String
  | typeMismatch op left right =>
      "type mismatch: " ++ left.name ++ " " ++ op.symbol ++ " " ++ right.name
  | unknownUnary op operand => "unknown operator: " ++ op.symbol ++ operand.name
  | unknownBinary op left right =>
      "unknown operator: " ++ left.name ++ " " ++ op.symbol ++ " " ++ right.name
  | undefined name => "identifier not found: " ++ name
  | notCallable got => "not a function: " ++ got.name
  | arity expected got =>
      "wrong number of arguments: expected " ++ expected.repr ++ ", got " ++ got.repr
  | divisionByZero => "division by zero"
  | negateOverflow operand => "integer overflow: -" ++ Text.decimal operand
  | overflow op left right =>
      "integer overflow: " ++ Text.decimal left ++ " " ++ op.symbol ++ " " ++ Text.decimal right
  | notIndexable subject position =>
      "index operator not supported: " ++ subject.name ++ "[" ++ position.name ++ "]"
  | builtin b cause => b.name ++ ": " ++ cause.message
  | stackOverflow limit => "stack overflow: call depth exceeded " ++ limit.repr

def Halt.message : Halt → String
  | fault f => f.message
  | returned v =>
      "control flow escaped its function: Return \x7b value: " ++ v.inspect ++ " \x7d"

end Sprig
