import Sprig.Builtin
import Sprig.Tree.Basic

/-!
Values.

Strings, arrays and closures are objects: each carries the identity it was created with, next to
its contents, which never change. Passing a value around keeps its identity. A closure names the
scope it was created in; the scope itself lives in the store.

There are two equalities. `Value.same` is identity, where numbers, booleans, null and builtins are
identical when they are equal. `Value.equal` looks into strings and arrays.
-/

namespace Sprig

abbrev ObjectId := Nat

abbrev ScopeId := Nat

structure Closure where
  params : List String
  body : Block
  scope : ScopeId
  deriving DecidableEq, Inhabited

inductive Value
  | int (value : Int64)
  | str (id : ObjectId) (value : String)
  | bool (value : Bool)
  | null
  | array (id : ObjectId) (items : List Value)
  | closure (id : ObjectId) (code : Closure)
  | builtin (b : Builtin)
  deriving Inhabited

/-- The tag by which error messages name a value's type. -/
inductive ValueType
  | integer | string | boolean | null | array | function | builtin
  deriving DecidableEq, Inhabited

def ValueType.name : ValueType → String
  | integer => "INTEGER"
  | string => "STRING"
  | boolean => "BOOLEAN"
  | null => "NULL"
  | array => "ARRAY"
  | function => "FUNCTION"
  | builtin => "BUILTIN"

namespace Value

def type : Value → ValueType
  | int _ => .integer
  | str _ _ => .string
  | bool _ => .boolean
  | null => .null
  | array _ _ => .array
  | closure _ _ => .function
  | builtin _ => .builtin

/-- Everything but `null` and `false` counts as true. -/
def isTruthy : Value → Bool
  | null => false
  | bool b => b
  | _ => true

def isNull : Value → Bool
  | null => true
  | _ => false

def isCallable : Value → Bool
  | closure _ _ | builtin _ => true
  | _ => false

def int? : Value → Option Int64
  | int n => some n
  | _ => none

def str? : Value → Option String
  | str _ s => some s
  | _ => none

def items? : Value → Option (List Value)
  | array _ vs => some vs
  | _ => none

/-- Identity of objects; other values are identical when they are equal. -/
def same : Value → Value → Bool
  | int a, int b => a == b
  | str i _, str j _ => i == j
  | bool a, bool b => a == b
  | null, null => true
  | array i _, array j _ => i == j
  | closure i _, closure j _ => i == j
  | builtin a, builtin b => a == b
  | _, _ => false

mutual

/-- Equality of contents, except that closures are equal only when they are identical. -/
def equal : Value → Value → Bool
  | int a, int b => a == b
  | str _ a, str _ b => a == b
  | bool a, bool b => a == b
  | null, null => true
  | array _ as, array _ bs => equalAll as bs
  | closure i _, closure j _ => i == j
  | builtin a, builtin b => a == b
  | _, _ => false
termination_by structural a => a

def equalAll : List Value → List Value → Bool
  | [], [] => true
  | a :: as, b :: bs => a.equal b && equalAll as bs
  | _, _ => false
termination_by structural as => as

end

end Value

end Sprig
