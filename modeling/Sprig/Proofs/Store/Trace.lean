import Sprig.Proofs.Store.Definitions

/-!
Scopes answer for what was done with them.

A `Trace` is a sequence of operations by someone who holds handles on scopes: new scopes are made,
inside of others or not, handles are copied, and names defined through them. Several handles can
stand for one scope, and a scope can be defined in while others inside of it exist. What a scope
answers is read off the trace alone: which scopes lie around it, and which definitions were made in
each of them, in their order and through whichever handle.
-/

namespace Sprig

/-- What can be done with `n` handles, which leaves `m` of them. A new handle is the last one. -/
inductive ScopeOp : Nat → Nat → Type
  | newRoot {n : Nat} : ScopeOp n (n + 1)
  /-- A scope directly inside that of handle `h`. -/
  | newInner {n : Nat} (h : Fin n) : ScopeOp n (n + 1)
  /-- Another handle on the scope of handle `h`. -/
  | clone {n : Nat} (h : Fin n) : ScopeOp n (n + 1)
  | define {n : Nat} (h : Fin n) (name : String) (v : Value) : ScopeOp n n

inductive Trace : Nat → Type
  | start : Trace 0
  | step {n m : Nat} (t : Trace n) (op : ScopeOp n m) : Trace m

/-- A store, and the scopes that the handles stand for. -/
structure Handles (n : Nat) where
  store : Store
  scopes : Vector ScopeId n

def Handles.add {n : Nat} (hs : Handles n) (made : ScopeId × Store) : Handles (n + 1) :=
  ⟨made.2, hs.scopes.push made.1⟩

namespace Handles

variable {n : Nat} (hs : Handles n) (h : Fin n)

def get? (name : String) : Option Value := hs.store.get? hs.scopes[h] name

def contains (name : String) : Bool := hs.store.contains hs.scopes[h] name

def names : List String := hs.store.names hs.scopes[h]

def nameCount : Nat := hs.store.nameCount hs.scopes[h]

end Handles

def ScopeOp.run {n m : Nat} : ScopeOp n m → Handles n → Handles m
  | newRoot, hs => hs.add hs.store.newRoot
  | newInner h, hs => hs.add (hs.store.newInner hs.scopes[h])
  | clone h, hs => hs.add (hs.scopes[h], hs.store)
  | define h name v, hs => { hs with store := hs.store.define hs.scopes[h] name v }

namespace Trace

variable {n m : Nat}

def run {n : Nat} : Trace n → Handles n
  | start => ⟨.empty, #v[]⟩
  | step t op => op.run t.run

/-- The number of scopes made. They are numbered in the order in which they were made. -/
def made {n : Nat} : Trace n → Nat
  | start => 0
  | step t .newRoot | step t (.newInner _) => t.made + 1
  | step t (.clone _) | step t (.define _ _ _) => t.made

/-- The scopes that the handles stand for. -/
def scopes {n : Nat} : Trace n → Vector Nat n
  | start => #v[]
  | step t .newRoot | step t (.newInner _) => t.scopes.push t.made
  | step t (.clone h) => t.scopes.push t.scopes[h]
  | step t (.define _ _ _) => t.scopes

/-- The scopes around scope `s`, from the inside out. -/
def outer {n : Nat} : Trace n → Nat → List Nat
  | start, _ => []
  | step t (.newInner h), s =>
      if s = t.made then t.scopes[h] :: t.outer t.scopes[h] else t.outer s
  | step t .newRoot, s | step t (.clone _), s | step t (.define _ _ _), s => t.outer s

/-- The definitions made in scope `s`, the first one first. -/
def defines {n : Nat} : Trace n → Nat → List (String × Value)
  | start, _ => []
  | step t (.define h name v), s =>
      if t.scopes[h] = s then t.defines s ++ [(name, v)] else t.defines s
  | step t .newRoot, s | step t (.newInner _), s | step t (.clone _), s => t.defines s

theorem scopes_lt (t : Trace n) : ∀ s ∈ t.scopes, s < t.made := by
  induction t with
  | start => simp [scopes]
  | step t op ih =>
      cases op with
      | newRoot | newInner h =>
          intro s hs
          obtain hs | rfl := Vector.mem_push.mp hs
          · exact Nat.lt_succ_of_lt (ih s hs)
          · exact Nat.lt_succ_self _
      | clone h =>
          intro s hs
          obtain hs | rfl := Vector.mem_push.mp hs
          · exact ih s hs
          · exact ih _ (Vector.getElem_mem _)
      | define h name v => exact ih

theorem scope_lt (t : Trace n) (h : Fin n) : t.scopes[h] < t.made :=
  t.scopes_lt _ (Vector.getElem_mem _)

/-- Nothing is defined in a scope before it is made. -/
theorem defines_of_made_le (t : Trace n) {s : Nat} (hs : t.made ≤ s) : t.defines s = [] := by
  induction t with
  | start => rfl
  | step t op ih =>
      cases op with
      | newRoot | newInner h => exact ih (Nat.le_of_succ_le hs)
      | clone h => exact ih hs
      | define h name v =>
          have hne : t.scopes[h] ≠ s := Nat.ne_of_lt (Nat.lt_of_lt_of_le (t.scope_lt h) hs)
          rw [defines, if_neg hne, ih hs]

/-- The scopes visible through handle `h`, from the inside out. -/
def chain (t : Trace n) (h : Fin n) : List Nat := t.scopes[h] :: t.outer t.scopes[h]

/-- The names defined in scope `s`, as often as they were. -/
def named (t : Trace n) (s : Nat) : List String := (t.defines s).map Prod.fst

/-- The most recent definition of `name` in scope `s` is that as `v`. -/
def Latest (t : Trace n) (s : Nat) (name : String) (v : Value) : Prop :=
  ∃ before after, t.defines s = before ++ (name, v) :: after ∧ name ∉ after.map Prod.fst

/-- The store has exactly what the trace says. -/
structure Kept (t : Trace n) : Prop where
  scopes : t.run.scopes = t.scopes
  size : t.run.store.scopes.size = t.made
  scope : ∀ s, t.run.store.scope s = ⟨t.outer s, .setAll [] (t.defines s)⟩

theorem Kept.step {t : Trace n} (ht : t.Kept) (op : ScopeOp n m) : (t.step op).Kept := by
  cases op with
  | newRoot =>
      refine ⟨?_, ?_, fun s => ?_⟩
      · simp [run, ScopeOp.run, Handles.add, Trace.scopes, Store.newRoot, ht.scopes, ht.size]
      · simp [run, ScopeOp.run, Handles.add, Store.newRoot, made, ht.size]
      · simp [run, ScopeOp.run, Handles.add, Store.scope_newRoot, ht.scope, outer, defines]
  | newInner h =>
      refine ⟨?_, ?_, fun s => ?_⟩
      · simp [run, ScopeOp.run, Handles.add, Trace.scopes, Store.newInner, ht.scopes, ht.size]
      · simp [run, ScopeOp.run, Handles.add, Store.newInner, made, ht.size]
      · simp only [run, ScopeOp.run, Handles.add, Store.scope_newInner, ht.size, outer, defines]
        split
        · next hs =>
            have hnew : t.defines s = [] := t.defines_of_made_le (Nat.le_of_eq hs.symm)
            simp [Store.chain, ht.scope, ht.scopes, hnew, Bindings.setAll]
        · exact ht.scope s
  | clone h =>
      refine ⟨?_, ht.size, ht.scope⟩
      simp [run, ScopeOp.run, Handles.add, Trace.scopes, ht.scopes]
  | define h name v =>
      refine ⟨ht.scopes, ?_, fun s => ?_⟩
      · simp [run, ScopeOp.run, Store.size_define, made, ht.size]
      · simp only [run, ScopeOp.run, Store.scope_define, ht.scopes, ht.size, ht.scope, outer,
          defines]
        by_cases hs : t.scopes[h] = s
        · rw [if_pos ⟨hs, hs ▸ t.scope_lt h⟩, if_pos hs, Bindings.setAll_append_singleton]
        · rw [if_neg (fun h => hs h.1), if_neg hs]

theorem kept (t : Trace n) : t.Kept := by
  induction t with
  | start => exact ⟨rfl, rfl, fun _ => rfl⟩
  | step t op ih => exact ih.step op

theorem get?_run (t : Trace n) (h : Fin n) (name : String) :
    t.run.get? h name =
      (t.chain h).findSome? fun s => (Bindings.setAll [] (t.defines s)).get? name := by
  simp [Handles.get?, Store.get?, Store.chain, chain, t.kept.scope, t.kept.scopes]

theorem get?_run_eq_none_iff (t : Trace n) (h : Fin n) (name : String) :
    t.run.get? h name = none ↔ ∀ s ∈ t.chain h, name ∉ t.named s := by
  simp only [get?_run, List.findSome?_eq_none_iff, Bindings.get?_setAll_eq_none_iff, named]

theorem get?_run_eq_some_iff (t : Trace n) (h : Fin n) (name : String) (v : Value) :
    t.run.get? h name = some v ↔ ∃ inner s outer, t.chain h = inner ++ s :: outer ∧
      t.Latest s name v ∧ ∀ r ∈ inner, name ∉ t.named r := by
  simp only [get?_run, List.findSome?_eq_some_iff, Bindings.get?_setAll_eq_none_iff,
    Bindings.get?_setAll_eq_some_iff, named, Latest]

theorem names_run (t : Trace n) (h : Fin n) :
    t.run.names h = (t.named t.scopes[h]).eraseDups := by
  simp only [Handles.names, Store.names, t.kept.scope, t.kept.scopes, Bindings.names_setAll, named]

/-- Two traces that differ in the order of two definitions, one right after the other and in
different scopes. -/
inductive Swapped : {n : Nat} → Trace n → Trace n → Prop
  | define {n : Nat} (t : Trace n) {h k : Fin n} (apart : t.scopes[h] ≠ t.scopes[k])
      (a b : String) (v w : Value) :
      Swapped ((t.step (.define h a v)).step (.define k b w))
        ((t.step (.define k b w)).step (.define h a v))
  | step {n m : Nat} {t t' : Trace n} (swapped : Swapped t t') (op : ScopeOp n m) :
      Swapped (t.step op) (t'.step op)

theorem Swapped.run_eq {t t' : Trace n} (h : Swapped t t') : t.run = t'.run := by
  induction h with
  | define t apart a b v w =>
      rw [← t.kept.scopes] at apart
      simp only [Trace.run, ScopeOp.run, Store.define_comm apart]
  | step _ op ih => rw [Trace.run, Trace.run, ih]

end Trace

/-- What scopes answer, after anything that was done with handles on them. A name has the value that
was last given to it in the innermost visible scope that it was ever defined in, through whichever
handle, and none if there is no such scope. The names of a scope are those defined in it, each once
and in the order of their first definitions. Exchanging two definitions in different scopes leads to
the same store. -/
theorem scopes_follow_trace {n : Nat} (t : Trace n) :
    (∀ h name v, t.run.get? h name = some v ↔ ∃ inner s outer, t.chain h = inner ++ s :: outer ∧
        t.Latest s name v ∧ ∀ r ∈ inner, name ∉ t.named r) ∧
      (∀ h name, t.run.get? h name = none ↔ ∀ s ∈ t.chain h, name ∉ t.named s) ∧
      (∀ h name, t.run.contains h name ↔ ∃ v, t.run.get? h name = some v) ∧
      (∀ h, t.run.names h = (t.named t.scopes[h]).eraseDups) ∧
      (∀ h, t.run.nameCount h = (t.run.names h).length) ∧
      ∀ t', t.Swapped t' → t'.run = t.run := by
  refine ⟨t.get?_run_eq_some_iff, t.get?_run_eq_none_iff, ?_, t.names_run, ?_, ?_⟩
  · intro h name
    exact Option.isSome_iff_exists
  · intro h
    simp only [Handles.nameCount, Store.nameCount, Handles.names, Store.names, Bindings.names,
      List.length_map]
  · intro t' swapped
    exact swapped.run_eq.symm

/-- A scope with another one inside of it, in which `x` is defined. Then `x` is defined in the outer
one, through a second handle, and seen from the inner one under its own definition only. -/
theorem scopes_follow_trace_shadowed :
    let made : Trace 3 := ((Trace.start.step .newRoot).step (.newInner 0)).step (.clone 0)
    let t := ((made.step (.define 1 "x" (.int 1))).step (.define 2 "x" (.int 2))).step
      (.define 2 "y" (.int 3))
    let t' := ((made.step (.define 2 "x" (.int 2))).step (.define 1 "x" (.int 1))).step
      (.define 2 "y" (.int 3))
    t.Swapped t' ∧ t.run.get? 1 "x" = some (.int 1) ∧ t.run.get? 0 "x" = some (.int 2) ∧
      t.run.get? 1 "y" = some (.int 3) ∧ t.run.names 0 = ["x", "y"] ∧ t'.run = t.run := by
  intro made t t'
  have swapped : t.Swapped t' := .step (.define made (by decide) "x" "x" (.int 1) (.int 2)) _
  obtain ⟨hsome, -, -, hnames, -, hswap⟩ := scopes_follow_trace t
  refine ⟨swapped, ?_, ?_, ?_, ?_, hswap t' swapped⟩
  · exact (hsome 1 "x" _).mpr ⟨[], 1, [0], rfl, ⟨[], [], rfl, nofun⟩, nofun⟩
  · exact (hsome 0 "x" _).mpr ⟨[], 0, [], rfl, ⟨[], [("y", .int 3)], rfl, by decide⟩, nofun⟩
  · exact (hsome 1 "y" _).mpr ⟨[1], 0, [], rfl, ⟨[("x", .int 2)], [], rfl, nofun⟩, by decide⟩
  · exact (hnames 0).trans (by decide)

end Sprig
