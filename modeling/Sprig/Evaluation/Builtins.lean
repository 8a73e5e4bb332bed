import Sprig.Evaluation.Run

/-!
What the builtins do.

The number of arguments is checked first, for the builtins that have a fixed number.
-/

namespace Sprig.Builtin

def manual : String :=
  "quickbeam manual:\n" ++
  "programs are made of statements and expressions\n" ++
  "statements: let, return\n" ++
  "expressions: integers, strings, booleans, arrays, functions, if, prefix and infix operators\n" ++
  "builtins: " ++ ", ".intercalate (all.map name) ++ "\n" ++
  "try help(\"let\") or help(\"return\") for more"

/-- The manual's page on a topic. -/
def page? (topic : String) : Option String :=
  if topic = "let" then
    some "let binds a name in the current scope: let <identifier> = <expression>;"
  else if topic = "return" then
    some "return leaves the enclosing function with a value: return <expression>;"
  else none

/-- The size of a string is counted in bytes. -/
def runLen : Value → Step Value
  | .str _ s => pure (.int (Int64.ofNat s.utf8ByteSize))
  | .array _ items => pure (.int (Int64.ofNat items.length))
  | v => Run.stop (.builtin .len (.unsupported v.type))

def runFirst : Value → Step Value
  | .array _ items => pure (items.head?.getD .null)
  | v => Run.stop (.builtin .first (.notArray v.type))

def runLast : Value → Step Value
  | .array _ items => pure (items.getLast?.getD .null)
  | v => Run.stop (.builtin .last (.notArray v.type))

/-- Pushing makes a new array and leaves the given one as it is. -/
def runPush : Value → Value → Step Value
  | .array _ items, v => Run.step fun st => st.newArray (items ++ [v])
  | a, _ => Run.stop (.builtin .push (.notArray a.type))

def runPuts : List Value → Step Value
  | [] => pure .null
  | v :: vs => fun st => runPuts vs (st.print v)

def runHelp : List Value → Step Value
  | [] => Run.step fun st => st.newString manual
  | [v] =>
    match v.str?.bind page? with
    | some text => Run.step fun st => st.newString text
    | none => Run.stop (.builtin .help (.unknownTopic v.inspect))
  | vs => Run.stop (.builtin .help (.tooManyArguments vs.length))

def run (b : Builtin) (args : List Value) : Step Value :=
  match b, args with
  | len, [v] => runLen v
  | first, [v] => runFirst v
  | last, [v] => runLast v
  | push, [a, v] => runPush a v
  | typeOf, [v] => Run.step fun st => st.newString v.type.name
  | puts, vs => runPuts vs
  | help, vs => runHelp vs
  | b, vs => Run.stop (.arity (b.arity.getD 0) vs.length)

end Sprig.Builtin
