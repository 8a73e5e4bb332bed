import Mathlib.Data.List.Forall2
import Sprig.Proofs.Evaluation.Host

/-!
A call can be repeated.

The second of two equal calls finds a store in which nothing that was there before the first call
has changed. It only makes its objects and scopes under later numbers. These numbers are what `==`
on arrays and functions compares, but they are moved as a whole, so no comparison comes out
differently, and what a value looks like does not show them. Hence both calls fail with the same
fault, or yield values that look the same, and print the same text.
-/

namespace Sprig

/-- The number that stands for `i` when what is counted from `n` on in one evaluation is counted
from `n'` on in another. Smaller numbers were there before both. -/
def carry (n n' i : Nat) : Nat :=
  if i < n then i else n' + (i - n)

section

variable {n n' i j k : Nat}

theorem carry_of_lt (h : i < n) : carry n n' i = i := if_pos h

theorem carry_add (n n' k : Nat) : carry n n' (n + k) = n' + k := by
  rw [carry, if_neg (by omega), Nat.add_sub_cancel_left]

theorem carry_inj (h : n ≤ n') : carry n n' i = carry n n' j ↔ i = j := by
  constructor
  · intro he
    unfold carry at he
    split at he <;> split at he <;> omega
  · rintro rfl
    rfl

theorem carry_lt (h : n ≤ n') : carry n n' i < n' + k ↔ i < n + k := by
  unfold carry
  split <;> omega

end

namespace Extent.Grows

variable {w w' : Extent}

/-- The object that stands for object `i` when one evaluation has started at `w` and the other at
`w'`. -/
def object (_hw : w.Grows w') (i : ObjectId) : ObjectId := carry w.objects w'.objects i

/-- The scope that stands for scope `i`. -/
def scope (_hw : w.Grows w') (i : ScopeId) : ScopeId := carry w.scopes w'.scopes i

theorem object_inj (hw : w.Grows w') {i j : ObjectId} : hw.object i = hw.object j ↔ i = j :=
  carry_inj hw.objects

theorem scope_inj (hw : w.Grows w') {i j : ScopeId} : hw.scope i = hw.scope j ↔ i = j :=
  carry_inj hw.scopes

theorem object_of_lt (hw : w.Grows w') {i : ObjectId} (h : i < w.objects) : hw.object i = i :=
  carry_of_lt h

theorem scope_of_lt (hw : w.Grows w') {i : ScopeId} (h : i < w.scopes) : hw.scope i = i :=
  carry_of_lt h

end Extent.Grows

/-- Objects and scopes that one evaluation makes from `w` on stand for those that another makes from
`w'` on. -/
def Matching.carried {w w' : Extent} (hw : w.Grows w') : Matching where
  World := Unit
  Grows _ _ := True
  object _ i j := j = hw.object i
  scope _ i j := j = hw.scope i
  grows_refl _ := trivial
  grows_trans _ _ := trivial
  object_mono _ h := h
  scope_mono _ h := h
  object_iff hi hj := by rw [hi, hj, hw.object_inj]

namespace Matching

/-- The same names in the same order, with values that stand for each other. -/
def SameBindings (M : Matching) (w : M.World) : Bindings → Bindings → Prop :=
  List.Forall₂ fun b b' => b.1 = b'.1 ∧ M.Same w b.2 b'.2

namespace SameBindings

variable {M : Matching} {w : M.World} {bs bs' : Bindings}

theorem get? (h : M.SameBindings w bs bs') (name : String) :
    Option.Rel (M.Same w) (bs.get? name) (bs'.get? name) := by
  induction h with
  | nil => exact .none
  | cons hb _ ih =>
      rw [Bindings.get?, Bindings.get?, hb.1]
      split
      · exact .some hb.2
      · exact ih

theorem set (h : M.SameBindings w bs bs') (name : String) {v v' : Value} (hv : M.Same w v v') :
    M.SameBindings w (bs.set name v) (bs'.set name v') := by
  induction h with
  | nil => exact .cons ⟨rfl, hv⟩ .nil
  | cons hb hbs ih =>
      rw [Bindings.set, Bindings.set, hb.1]
      split
      · exact .cons ⟨rfl, hv⟩ hbs
      · exact .cons hb ih

end SameBindings

variable {w w' : Extent} (hw : w.Grows w')

/-- What was there before both evaluations stands for itself. -/
theorem carried_refl {v : Value} (h : v.Within w) : (carried hw).Same () v v :=
  same_self (fun i hi => (hw.object_of_lt (h.objects_lt i hi)).symm)
    fun k hk => (hw.scope_of_lt (h.captured_lt k hk)).symm

end Matching

/-- How the stores `st` and `st'` of two evaluations compare that were started in `base` and
`base'`: they have made as much and printed the same since. -/
structure Store.Carried {base base' : Store} (hw : base.extent.Grows base'.extent)
    (st st' : Store) : Prop where
  objects : ∃ k, st.nextObject = base.nextObject + k ∧ st'.nextObject = base'.nextObject + k
  scopes : ∃ k, st.scopes.size = base.scopes.size + k ∧ st'.scopes.size = base'.scopes.size + k
  outer : ∀ i, (st'.scope (hw.scope i)).outer = (st.scope i).outer.map hw.scope
  bindings : ∀ i, (Matching.carried hw).SameBindings () (st.scope i).bindings
    (st'.scope (hw.scope i)).bindings
  depth : st.depth = st'.depth
  output : ∃ text, st.output = base.output ++ text ∧ st'.output = base'.output ++ text

namespace Store.Carried

variable {base base' st st' : Store} {hw : base.extent.Grows base'.extent}

theorem chain (h : Carried hw st st') (i : ScopeId) :
    st'.chain (hw.scope i) = (st.chain i).map hw.scope := by
  rw [Store.chain, Store.chain, h.outer, List.map_cons]

theorem get? (h : Carried hw st st') (i : ScopeId) (name : String) :
    Option.Rel ((Matching.carried hw).Same ()) (st.get? i name) (st'.get? (hw.scope i) name) := by
  rw [Store.get?, Store.get?, h.chain]
  induction st.chain i with
  | nil => exact .none
  | cons j js ih =>
      have hj := (h.bindings j).get? name
      rw [List.map_cons, List.findSome?_cons, List.findSome?_cons]
      generalize (st.scope j).bindings.get? name = r at hj ⊢
      generalize (st'.scope (hw.scope j)).bindings.get? name = r' at hj ⊢
      cases hj with
      | some hv => exact .some hv
      | none => exact ih

/-- The first store has a scope exactly when the second one has its counterpart. -/
theorem scope_lt_iff (h : Carried hw st st') (j : ScopeId) :
    hw.scope j < st'.scopes.size ↔ j < st.scopes.size := by
  obtain ⟨k, hk, hk'⟩ := h.scopes
  rw [hk, hk']
  exact carry_lt hw.scopes

theorem define (h : Carried hw st st') (i : ScopeId) (name : String) {v v' : Value}
    (hv : (Matching.carried hw).Same () v v') :
    Carried hw (st.define i name v) (st'.define (hw.scope i) name v') := by
  refine ⟨h.objects, ?_, fun j => ?_, fun j => ?_, h.depth, h.output⟩
  · rw [size_define, size_define]
    exact h.scopes
  · simp only [scope_define, hw.scope_inj, h.scope_lt_iff]
    split <;> exact h.outer j
  · simp only [scope_define, hw.scope_inj, h.scope_lt_iff]
    split
    · exact (h.bindings j).set name hv
    · exact h.bindings j

theorem newObject (h : Carried hw st st') : st'.newObject.1 = hw.object st.newObject.1 ∧
    Carried hw st.newObject.2 st'.newObject.2 := by
  obtain ⟨k, hk, hk'⟩ := h.objects
  refine ⟨?_, ⟨k + 1, ?_, ?_⟩, h.scopes, h.outer, h.bindings, h.depth, h.output⟩
  · simp only [Store.newObject, hk, hk']
    exact (carry_add _ _ k).symm
  · simp only [Store.newObject, hk, Nat.add_assoc]
  · simp only [Store.newObject, hk', Nat.add_assoc]

theorem newInner (h : Carried hw st st') (i : ScopeId) :
    (st'.newInner (hw.scope i)).1 = hw.scope (st.newInner i).1 ∧
      Carried hw (st.newInner i).2 (st'.newInner (hw.scope i)).2 := by
  obtain ⟨k, hk, hk'⟩ := h.scopes
  have hnew : st'.scopes.size = hw.scope st.scopes.size := by
    rw [hk, hk']
    exact (carry_add _ _ k).symm
  refine ⟨hnew, h.objects, ⟨k + 1, ?_, ?_⟩, fun j => ?_, fun j => ?_, h.depth, h.output⟩
  · simp only [Store.newInner, Array.size_push, hk, Nat.add_assoc]
  · simp only [Store.newInner, Array.size_push, hk', Nat.add_assoc]
  · simp only [scope_newInner, hnew, hw.scope_inj]
    split
    · exact h.chain i
    · exact h.outer j
  · simp only [scope_newInner, hnew, hw.scope_inj]
    split
    · exact List.Forall₂.nil
    · exact h.bindings j

end Store.Carried

/-- Evaluations from `base` and from `base'`, which has everything that `base` has. -/
def Pairing.carried {base base' : Store} (hw : base.extent.Grows base'.extent) : Pairing where
  toMatching := .carried hw
  store _ := Store.Carried hw
  stops _ := True
  escapes _ := False
  stops_of_ordinary _ := trivial
  depth_eq h := h.depth
  setDepth d h := ⟨h.objects, h.scopes, h.outer, h.bindings, rfl, h.output⟩
  write text h := by
    obtain ⟨printed, hp, hp'⟩ := h.output
    refine ⟨h.objects, h.scopes, h.outer, h.bindings, h.depth, printed ++ text, ?_, ?_⟩
    · simp only [hp, String.append_assoc]
    · simp only [hp', String.append_assoc]
  get? {_ _ _ i _} name h hi := hi ▸ h.get? i name
  define {_ _ _ i _ _ _} name h hi hv := hi ▸ h.define i name hv
  newObject h := ⟨(), trivial, h.newObject⟩
  newInner {_ _ _ i _} h hi := ⟨(), trivial, hi ▸ h.newInner i⟩

/-- A closed store stands for each store in which everything of it is left as it was. -/
theorem Store.Closed.carried {st st' : Store} (h : st.Closed) (hw : st.extent.Grows st'.extent)
    (hscope : ∀ i < st.scopes.size, st'.scope i = st.scope i) (hdepth : st.depth = st'.depth) :
    Carried hw st st' := by
  -- scopes that neither store has are empty in both
  have habsent : ∀ i, st.scopes.size ≤ i → st.scope i = ⟨[], []⟩ ∧
      st'.scope (hw.scope i) = ⟨[], []⟩ := by
    intro i hi
    refine ⟨scope_of_size_le hi, scope_of_size_le (Nat.le_of_not_lt fun hlt => ?_)⟩
    exact Nat.not_lt.mpr hi ((carry_lt (k := 0) hw.scopes).mp hlt)
  refine ⟨⟨0, rfl, rfl⟩, ⟨0, rfl, rfl⟩, fun i => ?_, fun i => ?_, hdepth, ⟨"", ?_, ?_⟩⟩
  · by_cases hi : i < st.scopes.size
    · have houter : ∀ j ∈ (st.scope i).outer, hw.scope j = j :=
        fun j hj => hw.scope_of_lt (Nat.lt_trans (h.outer_lt j hj) hi)
      rw [hw.scope_of_lt hi, hscope i hi, List.map_congr_left houter, List.map_id']
    · obtain ⟨hs, hs'⟩ := habsent i (Nat.le_of_not_lt hi)
      rw [hs, hs']
      rfl
  · by_cases hi : i < st.scopes.size
    · rw [hw.scope_of_lt hi, hscope i hi]
      exact List.forall₂_same.mpr fun b hb => ⟨rfl, Matching.carried_refl hw (h.bound i b hb)⟩
    · obtain ⟨hs, hs'⟩ := habsent i (Nat.le_of_not_lt hi)
      rw [hs, hs']
      exact List.Forall₂.nil
  · rw [String.append_empty]
  · rw [String.append_empty]

/-- Two ends of a call that cannot be told apart: by the fault, or by the type of the value and the
texts that show it. -/
inductive Alike : Except Fault Value → Except Fault Value → Prop
  | value {v v' : Value} (type : v.type = v'.type) (display : v.display = v'.display)
      (inspect : v.inspect = v'.inspect) : Alike (.ok v) (.ok v')
  | fault (f : Fault) : Alike (.error f) (.error f)

theorem Pairing.Meets.alike {base base' : Store} {hw : base.extent.Grows base'.extent} {d : Nat}
    {x y : Except Fault Value × Store}
    (h : (Pairing.carried hw).Meets d () (Pairing.carried hw).Same
      (x.1.mapError .fault, x.2) (y.1.mapError .fault, y.2)) :
    Alike x.1 y.1 ∧ Store.Carried hw x.2 y.2 := by
  obtain ⟨r, st⟩ := x
  obtain ⟨r', st'⟩ := y
  cases r with
  | ok v =>
      cases r' with
      | ok v' =>
          cases h with
          | value hr hv => exact ⟨.value hv.type_eq hv.display_eq hv.inspect_eq, hr.store⟩
      | error f' => cases h
  | error f =>
      cases r' with
      | ok v' =>
          cases h with
          | escaped h => exact h.elim
      | error f' =>
          cases h with
          | fault hr _ => exact ⟨.fault f, hr.store⟩
          | escaped h => exact h.elim

/-- Calling `f` and then calling it again: both calls end alike and print the same. -/
structure Repeats (limit : Nat) (f : Value) (args : List Value) (st : Store) : Prop where
  alike : Alike (Value.apply limit f args st).1
    (Value.apply limit f args (Value.apply limit f args st).2).1
  output : ∃ text, (Value.apply limit f args st).2.output = st.output ++ text ∧
    (Value.apply limit f args (Value.apply limit f args st).2).2.output =
      (Value.apply limit f args st).2.output ++ text

theorem Store.Closed.repeats {st : Store} (h : st.Closed) (limit : Nat) {f : Value}
    {args : List Value} (hf : f.Within st.extent) (hargs : ∀ v ∈ args, v.Within st.extent) :
    Repeats limit f args st := by
  have hw := (h.apply limit hf hargs).grows
  have heffects := Effects.of_apply limit st.scopes.size st f args
  have hstart : Carried hw st (Value.apply limit f args st).2 :=
    h.carried hw (fun i hi => heffects.frame.scope_eq i hi (Nat.ne_of_lt hi))
      heffects.depth_eq.symm
  have hcalls : (Pairing.carried hw).Calls st.depth (Value.apply limit) (Value.apply limit) :=
    Pairing.apply_paired (Nat.le_refl limit) (.inr ⟨trivial, rfl⟩)
  have hsame := Matching.sameAll_of_forall fun v hv => Matching.carried_refl hw (hargs v hv)
  have hmeets := hcalls (Matching.carried_refl hw hf) hsame st _ hstart rfl
  rw [Step.eval_apply, Step.eval_apply] at hmeets
  obtain ⟨halike, hend⟩ := hmeets.alike
  exact ⟨halike, hend.output⟩

/-- A call from any closed store can be repeated, and so can one that a host makes, whatever it did
before. -/
theorem calls_repeat (limit : Nat) :
    (∀ (st : Store) (f : Value) (args : List Value), st.Closed → f.Within st.extent →
      (∀ v ∈ args, v.Within st.extent) → Repeats limit f args st) ∧
    ∀ (h : Host) (f : Value) (args : List Value), h.Reached → h.Has f →
      (∀ v ∈ args, h.Has v) → Repeats limit f args h.store := by
  refine ⟨fun st f args hst hf hargs => hst.repeats limit hf hargs, ?_⟩
  intro h f args hreached hf hargs
  have hclosed := hreached.closed
  exact hclosed.store.repeats limit (hclosed.has hf) fun v hv => hclosed.has (hargs v hv)

/-- After `let a = [1];` the calls `f(1)` of `fn(c) { let b = [c]; puts(b == a); [b, fn() { b }] }`
make other objects each time, and look the same. -/
theorem calls_repeat_fresh :
    let body : Block := [.bind "b" (.array [.ident "c"]),
      .expr (.call (.ident "puts") [.binary .eq (.ident "b") (.ident "a")]),
      .expr (.array [.ident "b", .function [] [.expr (.ident "b")]])]
    let p : Program := ⟨[.bind "a" (.array [.int 1]), .expr (.function ["c"] body)]⟩
    let root : Host := { Host.start with store := Host.start.store.newRoot.2 }
    let h := root.after (p.eval 5 0 root.store)
    let f : Value := .closure 1 ⟨["c"], body, 0⟩
    let once := Value.apply 5 f [.int 1] h.store
    let twice := Value.apply 5 f [.int 1] once.2
    h.Reached ∧ h.Has f ∧ once.1.toOption.map Value.objects = some [4, 2, 3] ∧
      twice.1.toOption.map Value.objects = some [7, 5, 6] ∧ once.2.output = "false\n" ∧
      Repeats 5 f [.int 1] h.store := by
  intro body p root h f once twice
  have reached : h.Reached :=
    .tail (.single (.newRoot Host.start)) (.eval root 5 (by decide) p)
  have hf : h.Has f := .held List.mem_cons_self
  have hargs : ∀ v ∈ [Value.int 1], h.Has v := by
    intro v hv
    cases List.mem_singleton.mp hv
    exact .int 1
  refine ⟨reached, hf, ?_, ?_, ?_, (calls_repeat 5).2 h f [.int 1] reached hf hargs⟩
  all_goals decide +kernel

end Sprig
