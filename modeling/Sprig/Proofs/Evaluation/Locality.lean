import Sprig.Proofs.Evaluation.Effects

/-!
Definitions stay in the scope they are made in.

An evaluation in scope `i` writes to no other scope that was there before: a call writes to its own
scope, which is new. So closures that share scopes cannot change them by being called, and a call as
such changes no scope at all.
-/

namespace Sprig

namespace Store

theorem scope_of_size_le {st : Store} {j : ScopeId} (h : st.scopes.size ≤ j) :
    st.scope j = ⟨[], []⟩ := by
  simp [scope, h]

theorem size_define (st : Store) (i : ScopeId) (name : String) (v : Value) :
    (st.define i name v).scopes.size = st.scopes.size := by
  simp [define]

theorem size_defineAll (st : Store) (i : ScopeId) (bs : List (String × Value)) :
    (st.defineAll i bs).scopes.size = st.scopes.size := by
  induction bs generalizing st with
  | nil => rfl
  | cons b bs ih => rw [defineAll, ih, size_define]

theorem scope_defineAll_of_ne {i j : ScopeId} (h : i ≠ j) (st : Store)
    (bs : List (String × Value)) : (st.defineAll i bs).scope j = st.scope j := by
  induction bs generalizing st with
  | nil => rfl
  | cons b bs ih => rw [defineAll, ih, scope_define, if_neg (fun hj => h hj.1)]

/-- A name that is defined is a new last name, or is rebound where it stands. -/
theorem names_prefix_define (st : Store) (i : ScopeId) (name : String) (v : Value) :
    st.names i <+: (st.define i name v).names i := by
  rw [names, names, scope_define]
  split
  · rw [Bindings.names_set]
    split
    · exact List.prefix_rfl
    · exact List.prefix_append _ _
  · exact List.prefix_rfl

/-- Of the scopes of `st`, only scope `i` may have other bindings in `st'`, and of its names none
is lost or moved. Each scope stays inside of the same scopes, so it keeps its parent. -/
structure Frame (i : ScopeId) (st st' : Store) : Prop where
  size_le : st.scopes.size ≤ st'.scopes.size
  scope_eq : ∀ j < st.scopes.size, j ≠ i → st'.scope j = st.scope j
  outer_eq : ∀ j < st.scopes.size, (st'.scope j).outer = (st.scope j).outer
  names_prefix : st.names i <+: st'.names i

namespace Frame

variable {i : ScopeId} {st st' st'' : Store}

theorem trans (h : st.Frame i st') (h' : st'.Frame i st'') : st.Frame i st'' where
  size_le := Nat.le_trans h.size_le h'.size_le
  scope_eq j hj hne := by
    rw [h'.scope_eq j (Nat.lt_of_lt_of_le hj h.size_le) hne, h.scope_eq j hj hne]
  outer_eq j hj := by
    rw [h'.outer_eq j (Nat.lt_of_lt_of_le hj h.size_le), h.outer_eq j hj]
  names_prefix := h.names_prefix.trans h'.names_prefix

theorem define (st : Store) (i : ScopeId) (name : String) (v : Value) :
    st.Frame i (st.define i name v) where
  size_le := Nat.le_of_eq (st.size_define i name v).symm
  scope_eq j _ hne := by rw [scope_define, if_neg (fun hj => hne hj.1.symm)]
  outer_eq j _ := by
    rw [scope_define]
    split <;> rfl
  names_prefix := st.names_prefix_define i name v

/-- A store that has all scopes of `st` as they were. -/
theorem of_unchanged (hs : st.scopes.size ≤ st'.scopes.size)
    (h : ∀ j < st.scopes.size, st'.scope j = st.scope j) : st.Frame i st' where
  size_le := hs
  scope_eq j hj _ := h j hj
  outer_eq j hj := by rw [h j hj]
  names_prefix := by
    by_cases hi : i < st.scopes.size
    · have hnames : st.names i = st'.names i := by rw [names, names, h i hi]
      exact hnames ▸ List.prefix_rfl
    · rw [names, scope_of_size_le (Nat.le_of_not_lt hi)]
      exact List.nil_prefix

end Frame

end Store

namespace Closure

variable (code : Closure) (args : List Value) (st : Store)

theorem enter_eq : code.enter args st = (st.scopes.size,
    ({ st with depth := st.depth + 1 }.newInner code.scope).2.defineAll st.scopes.size
      (code.params.zip args)) := rfl

theorem size_enter : (code.enter args st).2.scopes.size = st.scopes.size + 1 := by
  rw [enter_eq, Store.size_defineAll, Store.newInner, Array.size_push]

theorem scope_enter_of_lt {j : ScopeId} (hj : j < st.scopes.size) :
    (code.enter args st).2.scope j = st.scope j := by
  rw [enter_eq, Store.scope_defineAll_of_ne (Nat.ne_of_gt hj)]
  exact Store.scope_newInner_of_lt hj

end Closure

theorem Effects.frame {limit : Nat} {i : ScopeId} {st st' : Store} (h : Effects limit i st st') :
    st.Frame i st' := by
  induction h with
  | none _ | object _ | print _ _ => exact .of_unchanged (Nat.le_refl _) fun _ _ => rfl
  | andThen _ _ ih ih' => exact ih.trans ih'
  | define st name v => exact .define st _ name v
  | @call i st st' code args _ _ ih =>
      -- the scope of the call is new, so what the body may change was not there before
      refine .of_unchanged ?_ fun j hj => ?_
      · have hle := ih.size_le
        rw [code.size_enter] at hle
        exact Nat.le_of_succ_le hle
      · have hlt : j < (code.enter args st).2.scopes.size := by
          rw [code.size_enter]
          exact Nat.lt_succ_of_lt hj
        have hne : j ≠ (code.enter args st).1 := Nat.ne_of_lt hj
        rw [← code.scope_enter_of_lt args st hj, ← ih.scope_eq j hlt hne]
        rfl

/-- Whatever is evaluated in scope `i`, and however it ends, the other scopes that were there stay
as they are, every scope stays inside of the same scopes, and the names of scope `i` stay in front
of those that are added. A call changes no scope that was there. -/
theorem evaluation_frame (limit : Nat) (i : ScopeId) (st : Store) :
    (∀ e : Expr, st.Frame i (e.eval (Value.apply limit) i st).2) ∧
      (∀ s : Stmt, st.Frame i (s.eval (Value.apply limit) i st).2) ∧
      (∀ ss : Block, st.Frame i (Stmt.evalAll (Value.apply limit) i ss .null st).2) ∧
      (∀ p : Program, st.Frame i (p.eval limit i st).2) ∧
      ∀ (f : Value) (args : List Value) (j : ScopeId), j < st.scopes.size →
        (Value.apply limit f args st).2.scope j = st.scope j := by
  refine ⟨fun e => ?_, fun s => ?_, fun ss => ?_, fun p => ?_, fun f args j hj => ?_⟩
  · exact (Effects.of_expr limit i st e).frame
  · exact (Effects.of_stmt limit i st s).frame
  · exact (Effects.of_block limit i st ss).frame
  · exact (Effects.of_program limit i st p).frame
  · -- a call has the effects of evaluation in any scope, also in one that is not there
    have h := (Effects.of_apply limit st.scopes.size st f args).frame
    exact h.scope_eq j hj (Nat.ne_of_lt hj)

/-- A call of `fn() { let x = 2; }` binds its own `x` and not the one around it. -/
theorem evaluation_frame_shadowed :
    let st := Store.empty.newRoot.2.define 0 "x" (.int 1)
    let f : Value := .closure 0 ⟨[], [.bind "x" (.int 2)], 0⟩
    0 < st.scopes.size ∧ (Value.apply 5 f [] st).2.names 1 = ["x"] ∧
      (Value.apply 5 f [] st).2.scope 0 = st.scope 0 := by
  intro st f
  exact ⟨by decide, rfl, (evaluation_frame 5 0 st).2.2.2.2 f [] 0 (by decide)⟩

end Sprig
