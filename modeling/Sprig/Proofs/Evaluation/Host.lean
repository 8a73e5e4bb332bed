import Mathlib.Data.PFun
import Mathlib.Logic.Relation
import Sprig.Proofs.Evaluation.Closed

/-!
What a host program can make of a store.

A host opens scopes, defines names, makes values, evaluates programs and calls functions, in any
order and with whatever it has got hold of so far. Nothing it does leads out of the closed stores.
In these, scopes are numbered in the order in which they were opened and each stands inside an
earlier one. So going outward from scope to scope comes to an end, although the values form cycles:
a closure is usually bound in the very scope that it captures.
-/

namespace Sprig

/-- The store that a host works on, and the values that were handed to it. -/
structure Host where
  store : Store
  values : List Value

namespace Host

def start : Host := ⟨.empty, []⟩

/-- The host after a run: a value that the run ended with is kept. -/
def after (h : Host) (out : Except Fault Value × Store) : Host :=
  ⟨out.2, out.1.toOption.toList ++ h.values⟩

/-- The values a host can get hold of without a change to the store. -/
inductive Has (h : Host) : Value → Prop
  | held {v : Value} (hv : v ∈ h.values) : h.Has v
  | int (n : Int64) : h.Has (.int n)
  | bool (b : Bool) : h.Has (.bool b)
  | null : h.Has .null
  | builtin (b : Builtin) : h.Has (.builtin b)
  | bound {i : ScopeId} {name : String} {v : Value} (hv : h.store.get? i name = some v) : h.Has v
  | item {id : ObjectId} {items : List Value} {v : Value} (ha : h.Has (.array id items))
      (hv : v ∈ items) : h.Has v

/-- One thing that a host can do. The scopes it names are there, and the values are ones it has. -/
inductive Act : Host → Host → Prop
  | newRoot (h : Host) : Act h { h with store := h.store.newRoot.2 }
  | newInner (h : Host) {i : ScopeId} (hi : i < h.store.scopes.size) :
      Act h { h with store := (h.store.newInner i).2 }
  /-- A second handle on a scope is the same number again. -/
  | clone (h : Host) : Act h h
  | define (h : Host) {i : ScopeId} (hi : i < h.store.scopes.size) (name : String) {v : Value}
      (hv : h.Has v) : Act h { h with store := h.store.define i name v }
  | newString (h : Host) (s : String) :
      Act h (h.after (.ok (h.store.newString s).1, (h.store.newString s).2))
  | newArray (h : Host) {vs : List Value} (hvs : ∀ v ∈ vs, h.Has v) :
      Act h (h.after (.ok (h.store.newArray vs).1, (h.store.newArray vs).2))
  | newClosure (h : Host) {code : Closure} (hi : code.scope < h.store.scopes.size) :
      Act h (h.after (.ok (h.store.newClosure code).1, (h.store.newClosure code).2))
  | eval (h : Host) (limit : Nat) {i : ScopeId} (hi : i < h.store.scopes.size) (p : Program) :
      Act h (h.after (p.eval limit i h.store))
  | apply (h : Host) (limit : Nat) {f : Value} {args : List Value} (hf : h.Has f)
      (hargs : ∀ v ∈ args, h.Has v) : Act h (h.after (Value.apply limit f args h.store))

/-- What a host can come to, having started with nothing. -/
def Reached (h : Host) : Prop := Relation.ReflTransGen Act start h

structure Closed (h : Host) : Prop where
  store : h.store.Closed
  values : ∀ v ∈ h.values, v.Within h.store.extent

namespace Closed

variable {h : Host}

theorem has (hc : h.Closed) {v : Value} (hv : h.Has v) : v.Within h.store.extent := by
  induction hv with
  | held hv => exact hc.values _ hv
  | int n => exact .int n
  | bool b => exact .bool b
  | null => exact .null
  | builtin b => exact .builtin b
  | bound hv => exact hc.store.get? hv
  | item _ hv ih => exact (Value.Within.array_iff.mp ih).2 _ hv

/-- A store with more in it does for the values that were there before. -/
theorem withStore (hc : h.Closed) {st : Store} (hst : st.Closed)
    (hw : h.store.extent.Grows st.extent) : Closed { h with store := st } :=
  ⟨hst, fun v hv => (hc.values v hv).mono hw⟩

theorem after (hc : h.Closed) {out : Except Fault Value × Store} (hout : h.store.Leads out) :
    (h.after out).Closed := by
  refine ⟨hout.closed, List.forall_mem_append.mpr ⟨fun v hv => ?_, ?_⟩⟩
  · obtain ⟨_ | _, _⟩ := out
    · cases hv
    · cases List.mem_singleton.mp hv
      exact hout.value _ rfl
  · exact (hc.withStore hout.closed hout.grows).values

/-- A value that is an object made just now. -/
theorem made (hc : h.Closed) {v : Value} (hv : v.Within h.store.newObject.2.extent) :
    (h.after (.ok v, h.store.newObject.2)).Closed :=
  hc.after ⟨hc.store.newObject, h.store.grows_newObject, fun _ h => by cases h; exact hv⟩

theorem act (hc : h.Closed) {h' : Host} (ha : Act h h') : h'.Closed := by
  have hnew : h.store.nextObject < h.store.newObject.2.extent.objects := Nat.lt_succ_self _
  cases ha with
  | newRoot => exact hc.withStore hc.store.newRoot h.store.grows_newRoot
  | newInner hi => exact hc.withStore (hc.store.newInner hi) (h.store.grows_newInner _)
  | clone => exact hc
  | @define i hi name v hv =>
      refine hc.withStore (hc.store.define (hc.has hv) i name) ?_
      rw [Store.extent_define]
      exact .refl _
  | newString s => exact hc.made (Value.Within.str_iff.mpr hnew)
  | newArray hvs =>
      exact hc.made (Value.Within.array_iff.mpr
        ⟨hnew, fun v hv => (hc.has (hvs v hv)).mono h.store.grows_newObject⟩)
  | newClosure hi => exact hc.made (Value.Within.closure_iff.mpr ⟨hnew, hi⟩)
  | eval limit hi p => exact hc.after (hc.store.eval limit hi p)
  | apply limit hf hargs =>
      exact hc.after (hc.store.apply limit (hc.has hf) fun v hv => hc.has (hargs v hv))

end Closed

theorem Reached.closed {h : Host} (hr : h.Reached) : h.Closed := by
  induction hr with
  | refl => exact ⟨⟨fun _ => .inl rfl, fun _ => nofun⟩, nofun⟩
  | tail _ ha ih => exact ih.act ha

end Host

namespace Store

variable {st : Store}

/-- One turn of the search for a name: what ends it, or the scope to look into next. -/
def look (st : Store) (name : String) (i : ScopeId) : Option Value ⊕ ScopeId :=
  match (st.scope i).bindings.get? name with
  | some v => .inl (some v)
  | none =>
    match st.parent? i with
    | some p => .inr p
    | none => .inl none

/-- The search for a name from parent to parent, for as long as it takes. -/
def search (st : Store) (name : String) : ScopeId →. Option Value :=
  PFun.fix (PFun.lift (st.look name))

/-- One turn of the count of scopes: the number once there is no scope left, or the number and the
scope to go on with. -/
def climb (st : Store) : Nat × Option ScopeId → Nat ⊕ Nat × Option ScopeId
  | (n, none) => .inl n
  | (n, some i) => .inr (n + 1, st.parent? i)

/-- The count of scopes from parent to parent, for as long as it takes. -/
def count (st : Store) : Nat × Option ScopeId →. Nat :=
  PFun.fix (PFun.lift st.climb)

theorem outer_of_root {i : ScopeId} (hp : st.parent? i = none) : (st.scope i).outer = [] :=
  List.head?_eq_none_iff.mp hp

theorem lt_of_parent {i p : ScopeId} (hp : st.parent? i = some p) : i < st.scopes.size := by
  by_contra hi
  rw [parent?, scope_of_size_le (Nat.le_of_not_lt hi)] at hp
  cases hp

namespace Closed

theorem parent (h : st.Closed) {i p : ScopeId} (hp : st.parent? i = some p) :
    p < i ∧ (st.scope i).outer = st.chain p := by
  rw [parent?] at hp
  obtain hroot | ⟨q, hq, hinner⟩ := h.nested i
  · rw [hroot] at hp
    cases hp
  · rw [hinner] at hp
    cases hp
    exact ⟨hq, hinner⟩

theorem search_ends (h : st.Closed) (name : String) (i : ScopeId) :
    st.get? i name ∈ st.search name i := by
  induction i using Nat.strongRecOn with
  | ind i ih =>
      refine PFun.mem_fix_iff.mpr ?_
      simp only [PFun.coe_val, Part.mem_some_iff, look, Store.get?, chain, List.findSome?_cons]
      cases (st.scope i).bindings.get? name with
      | some v => exact .inl rfl
      | none =>
          cases hp : st.parent? i with
          | none => exact .inl (by rw [outer_of_root hp]; rfl)
          | some p =>
              obtain ⟨hlt, houter⟩ := h.parent hp
              exact .inr ⟨p, rfl, by rw [houter]; exact ih p hlt⟩

/-- The count goes up by the number of scopes that are left. -/
theorem count_ends (h : st.Closed) (i : ScopeId) (n : Nat) :
    n + (st.scope i).outer.length ∈ st.count (n, st.parent? i) := by
  induction i using Nat.strongRecOn generalizing n with
  | ind i ih =>
      refine PFun.mem_fix_iff.mpr ?_
      simp only [PFun.coe_val, Part.mem_some_iff]
      cases hp : st.parent? i with
      | none => exact .inl (by rw [outer_of_root hp]; rfl)
      | some p =>
          obtain ⟨hlt, houter⟩ := h.parent hp
          refine .inr ⟨(n + 1, st.parent? p), rfl, ?_⟩
          have hlength : n + (st.scope i).outer.length = n + 1 + (st.scope p).outer.length := by
            rw [houter, chain, List.length_cons]
            omega
          rw [hlength]
          exact ih p hlt (n + 1)

end Closed

end Store

/-- How scopes, and the closures that refer to them, are ordered. -/
structure Host.WellScoped (h : Host) : Prop where
  /-- The scope around a scope that exists is an earlier one. -/
  parent_lt : ∀ i p, h.store.parent? i = some p → p < i ∧ i < h.store.scopes.size
  /-- Closures that are bound anywhere capture scopes that exist. -/
  bound_captures : ∀ i, ∀ b ∈ (h.store.scope i).bindings, ∀ k ∈ b.2.captured,
    k < h.store.scopes.size
  /-- So do those in values that the host has, all results of its runs among them. -/
  value_captures : ∀ v, h.Has v → ∀ k ∈ v.captured, k < h.store.scopes.size
  /-- The search for a name ends, with the value that the name has. -/
  search_ends : ∀ i name, h.store.get? i name ∈ h.store.search name i
  /-- The count of scopes ends, with the length of the chain. -/
  count_ends : ∀ i, h.store.chainLength i ∈ h.store.count (1, h.store.parent? i)
  chainLength_parent : ∀ i p, h.store.parent? i = some p →
    h.store.chainLength i = h.store.chainLength p + 1

/-- Whatever a host does, the scopes of its store are nested without a cycle, and no closure has
lost its scope. -/
theorem reached_wellScoped {h : Host} (reached : h.Reached) : h.WellScoped where
  parent_lt i p hp := ⟨(reached.closed.store.parent hp).1, Store.lt_of_parent hp⟩
  bound_captures i b hb := (reached.closed.store.bound i b hb).captured_lt
  value_captures v hv := (reached.closed.has hv).captured_lt
  search_ends i name := reached.closed.store.search_ends name i
  count_ends i := by
    rw [Store.chainLength, Store.chain, List.length_cons, Nat.add_comm]
    exact reached.closed.store.count_ends i 1
  chainLength_parent i p hp := by
    rw [Store.chainLength, Store.chain, (reached.closed.store.parent hp).2]
    rfl

/-- The call in `let f = fn(x) { fn() { x } }; [f(1)]` leaves its scope to the closure that it
returns, which stands in an array by then. -/
theorem reached_wellScoped_captured :
    let p : Program := ⟨[.bind "f" (.function ["x"] [.expr (.function [] [.expr (.ident "x")])]),
      .expr (.array [.call (.ident "f") [.int 1]])]⟩
    let root : Host := { Host.start with store := Host.start.store.newRoot.2 }
    let h := root.after (p.eval 5 0 root.store)
    h.Reached ∧ (∃ v ∈ h.values, v.captured = [1]) ∧ 1 < h.store.scopes.size ∧
      h.store.parent? 1 = some 0 ∧ h.store.chainLength 1 = h.store.chainLength 0 + 1 ∧
      some (.int 1) ∈ h.store.search "x" 1 := by
  intro p root h
  have reached : h.Reached :=
    .tail (.single (.newRoot Host.start)) (.eval root 5 (by decide) p)
  have hv : Value.array 2 [.closure 1 ⟨[], [.expr (.ident "x")], 1⟩] ∈ h.values :=
    List.mem_cons_self
  have hscoped := reached_wellScoped reached
  exact ⟨reached, ⟨_, hv, rfl⟩, hscoped.value_captures _ (.held hv) 1 List.mem_cons_self, rfl,
    hscoped.chainLength_parent 1 0 rfl, hscoped.search_ends 1 "x"⟩

end Sprig
