import Sprig.Text.Quoted
import Sprig.Tree.Render
import Sprig.Value.Basic

/-!
Values as text.

`Value.display` is what a program prints. `Value.inspect` is what shows inside other text, so it
quotes strings, and is the same inside arrays.
-/

namespace Sprig

namespace Closure

def arity (c : Closure) : Nat := c.params.length

/-- The head of the function: its parameters, without its body. -/
def signature (c : Closure) : String :=
  "fn(" ++ ", ".intercalate c.params ++ ")"

def describe (c : Closure) : String :=
  "FunctionValue(" ++ c.signature ++ ")"

end Closure

namespace Value

mutual

def inspect : Value → String
  | int n => Text.decimal n
  | str _ s => Text.quoted s
  | bool b => if b then "true" else "false"
  | null => "null"
  | array _ items => "[" ++ ", ".intercalate (inspectAll items) ++ "]"
  | closure _ code => "<" ++ code.signature ++ ">"
  | builtin b => "<builtin " ++ b.name ++ ">"
termination_by structural v => v

def inspectAll : List Value → List String
  | [] => []
  | v :: vs => v.inspect :: inspectAll vs
termination_by structural vs => vs

end

def display : Value → String
  | str _ s => s
  | closure _ code => code.signature ++ " \x7b\n" ++ Stmt.renderAll code.body ++ "\n\x7d"
  | builtin _ => "builtin function"
  | v => v.inspect

end Value

end Sprig
