/-!
The functions every program can call without defining them.

`Builtin.all` is their table; its order is the one in which the manual lists them. What they do is
in `Sprig.Evaluation.Builtins`.
-/

namespace Sprig

inductive Builtin
  | len | first | last | push | puts | typeOf | help
  deriving DecidableEq, Inhabited

namespace Builtin

def name : Builtin → String
  | len => "len"
  | first => "first"
  | last => "last"
  | push => "push"
  | puts => "puts"
  | typeOf => "type_of"
  | help => "help"

/-- The number of arguments, for the builtins that take a fixed number. -/
def arity : Builtin → Option Nat
  | len | first | last | typeOf => some 1
  | push => some 2
  | puts | help => none

def all : List Builtin :=
  [len, first, last, push, puts, typeOf, help]

theorem mem_all (b : Builtin) : b ∈ all := by
  cases b <;> decide

def ofName? (s : String) : Option Builtin :=
  all.find? fun b => b.name == s

theorem ofName?_name (b : Builtin) : ofName? b.name = some b := by
  cases b <;> decide

def describe (b : Builtin) : String :=
  "BuiltinFn(" ++ b.name ++ ")"

end Builtin

end Sprig
