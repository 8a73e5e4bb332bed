import Sprig.Value.Text

/-!
The state of an evaluation.

The store holds every scope that was ever made; a scope is named by its number and knows the
scopes around it. Definitions go into one scope and are found from every scope inside it. The store
also hands out object identities, counts the calls that are running, and keeps what was printed.
-/

namespace Sprig

/-- Names with their values, in the order in which the names were first defined. -/
abbrev Bindings := List (String × Value)

namespace Bindings

def get? : Bindings → String → Option Value
  | [], _ => none
  | b :: bs, name => if b.1 = name then some b.2 else get? bs name

/-- A name that is defined again keeps its place. -/
def set : Bindings → String → Value → Bindings
  | [], name, v => [(name, v)]
  | b :: bs, name, v => if b.1 = name then (name, v) :: bs else b :: set bs name v

def names (bs : Bindings) : List String :=
  bs.map Prod.fst

theorem get?_set (bs : Bindings) (name other : String) (v : Value) :
    (bs.set name v).get? other = if name = other then some v else bs.get? other := by
  induction bs with
  | nil => rfl
  | cons b bs ih =>
      by_cases hb : b.1 = name
      · by_cases h : name = other <;> simp [set, get?, hb, h]
      · by_cases h : b.1 = other
        · subst h
          simp [set, get?, hb, Ne.symm hb]
        · simp [set, get?, hb, h, ih]

theorem names_set (bs : Bindings) (name : String) (v : Value) :
    (bs.set name v).names = if name ∈ bs.names then bs.names else bs.names ++ [name] := by
  induction bs with
  | nil => simp [set, names]
  | cons b bs ih =>
      simp only [names] at ih
      by_cases hb : b.1 = name
      · simp [set, names, hb]
      · by_cases hm : name ∈ bs.map Prod.fst
        · simp_all [set, names]
        · have hn : ¬ name = b.1 := fun h => hb h.symm
          simp_all [set, names]

end Bindings

structure Scope where
  /-- The enclosing scopes, the nearest first. -/
  outer : List ScopeId
  bindings : Bindings
  deriving Inhabited

structure Store where
  scopes : Array Scope
  nextObject : ObjectId
  /-- The number of calls that are running. -/
  depth : Nat
  output : String
  deriving Inhabited

namespace Store

def empty : Store :=
  { scopes := #[], nextObject := 0, depth := 0, output := "" }

def scope (st : Store) (i : ScopeId) : Scope :=
  st.scopes.getD i ⟨[], []⟩

/-- A scope inside no other. -/
def newRoot (st : Store) : ScopeId × Store :=
  (st.scopes.size, { st with scopes := st.scopes.push ⟨[], []⟩ })

/-- A scope directly inside scope `i`. -/
def newInner (st : Store) (i : ScopeId) : ScopeId × Store :=
  (st.scopes.size, { st with scopes := st.scopes.push ⟨i :: (st.scope i).outer, []⟩ })

def define (st : Store) (i : ScopeId) (name : String) (v : Value) : Store :=
  { st with scopes := st.scopes.modify i fun s => { s with bindings := s.bindings.set name v } }

/-- Define names one after another, so of two equal names the later one counts. -/
def defineAll (st : Store) (i : ScopeId) : List (String × Value) → Store
  | [] => st
  | (name, v) :: rest => (st.define i name v).defineAll i rest

/-- The scopes visible from scope `i`, from the inside out. -/
def chain (st : Store) (i : ScopeId) : List ScopeId :=
  i :: (st.scope i).outer

/-- The value that `name` has in the innermost visible scope that defines it. -/
def get? (st : Store) (i : ScopeId) (name : String) : Option Value :=
  (st.chain i).findSome? fun j => (st.scope j).bindings.get? name

/-- Whether a visible scope defines `name`. -/
def contains (st : Store) (i : ScopeId) (name : String) : Bool :=
  (st.get? i name).isSome

def parent? (st : Store) (i : ScopeId) : Option ScopeId :=
  (st.scope i).outer.head?

def names (st : Store) (i : ScopeId) : List String :=
  (st.scope i).bindings.names

/-- The number of names that scope `i` itself defines. -/
def nameCount (st : Store) (i : ScopeId) : Nat :=
  (st.scope i).bindings.length

/-- The number of scopes from scope `i` outward, itself included. -/
def chainLength (st : Store) (i : ScopeId) : Nat :=
  (st.chain i).length

def describe (st : Store) (i : ScopeId) : String :=
  "Environment \x7b names: [" ++ ", ".intercalate ((st.names i).map Text.quoted) ++ "], depth: " ++
    (st.chainLength i).repr ++ " \x7d"

def newObject (st : Store) : ObjectId × Store :=
  (st.nextObject, { st with nextObject := st.nextObject + 1 })

def newString (st : Store) (s : String) : Value × Store :=
  let (id, st) := st.newObject
  (.str id s, st)

def newArray (st : Store) (items : List Value) : Value × Store :=
  let (id, st) := st.newObject
  (.array id items, st)

def newClosure (st : Store) (code : Closure) : Value × Store :=
  let (id, st) := st.newObject
  (.closure id code, st)

theorem scope_define (st : Store) (i j : ScopeId) (name : String) (v : Value) :
    (st.define i name v).scope j =
      if i = j ∧ j < st.scopes.size then
        { st.scope j with bindings := (st.scope j).bindings.set name v }
      else st.scope j := by
  by_cases hj : j < st.scopes.size
  · by_cases h : i = j
    · subst h
      simp [define, scope, hj, Array.getElem_modify]
    · simp [define, scope, hj, h, Array.getElem_modify]
  · simp [define, scope, hj]

theorem scope_newInner_of_lt {st : Store} {i j : ScopeId} (hj : j < st.scopes.size) :
    (st.newInner i).2.scope j = st.scope j := by
  simp [newInner, scope, hj, Nat.lt_succ_of_lt hj, Array.getElem_push_lt]

theorem scope_newInner_self (st : Store) (i : ScopeId) :
    (st.newInner i).2.scope (st.newInner i).1 = ⟨i :: (st.scope i).outer, []⟩ := by
  simp [newInner, scope]

/-- Print a value on a line of its own. -/
def print (st : Store) (v : Value) : Store :=
  { st with output := st.output ++ v.display ++ "\n" }

/-- What was printed since the last time, which is thereby forgotten. -/
def takeOutput (st : Store) : String × Store :=
  (st.output, { st with output := "" })

end Store

end Sprig
