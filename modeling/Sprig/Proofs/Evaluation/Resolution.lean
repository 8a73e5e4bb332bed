import Mathlib.Data.List.Basic
import Sprig.Proofs.Evaluation.Independence
import Sprig.Proofs.Store.Definitions

/-!
What a name means where the body of a call starts.

A call opens a scope inside of the one that the closure captured and defines the arguments in it. So
a name is looked up among the parameters, then in the captured scope and the scopes around it, as
they are when the call is made, and then among the builtins. The scope that the call is made from is
none of these, unless it is one of the captured ones.
-/

namespace Sprig

theorem Builtin.ofName?_eq_none {name : String} (h : ∀ b : Builtin, b.name ≠ name) :
    ofName? name = none := by
  simpa [ofName?] using fun b _ => h b

namespace Closure

variable (code : Closure) (args : List Value) (st : Store)

/-- Entering a call adds the scope of the call and changes no other. -/
theorem scope_enter (j : ScopeId) :
    (code.enter args st).2.scope j =
      if j = st.scopes.size then ⟨st.chain code.scope, .setAll [] (code.params.zip args)⟩
      else st.scope j := by
  have hnew := Store.scope_newInner { st with depth := st.depth + 1 } code.scope
  rw [enter_eq]
  split
  · next hj =>
      rw [hj, Store.scope_defineAll _ _ (by simp [Store.newInner]), hnew, if_pos rfl]
      rfl
  · next hj =>
      rw [Store.scope_defineAll_of_ne (Ne.symm hj), hnew, if_neg hj]
      rfl

theorem scope_enter_self :
    (code.enter args st).2.scope (code.enter args st).1 =
      ⟨st.chain code.scope, .setAll [] (code.params.zip args)⟩ :=
  (code.scope_enter args st st.scopes.size).trans (if_pos rfl)

/-- The arguments come first, and then what the closure sees from the scope that it captured. -/
theorem get?_enter (name : String) :
    (code.enter args st).2.get? (code.enter args st).1 name =
      ((Bindings.setAll [] (code.params.zip args)).get? name).or (st.get? code.scope name) := by
  cases h : (Bindings.setAll [] (code.params.zip args)).get? name with
  | some v => simp [Store.get?, Store.chain, scope_enter_self, h]
  | none =>
      have hscope : ∀ j, ((code.enter args st).2.scope j).bindings.get? name =
          (st.scope j).bindings.get? name := by
        intro j
        rw [scope_enter]
        split
        · next hj =>
            -- before the call there was no such scope, and so nothing bound in it
            rw [h, hj, Store.scope_of_size_le (Nat.le_refl _)]
            rfl
        · rfl
      calc (code.enter args st).2.get? (code.enter args st).1 name
        _ = (st.chain code.scope).findSome? fun j =>
            ((code.enter args st).2.scope j).bindings.get? name := by
          simp [Store.get?, Store.chain, scope_enter_self, h]
        _ = none.or (st.get? code.scope name) := by
          simp [Store.get?, hscope]

end Closure

/-- Behind the last parameter of a name, no further argument is defined under it. -/
theorem zip_split_last {params : List String} {args : List Value} {name : String} {k : Nat}
    {v : Value} (hk : params[k]? = some name) (hv : args[k]? = some v)
    (hlast : ∀ j, k < j → params[j]? ≠ some name) :
    ∃ before after, params.zip args = before ++ (name, v) :: after ∧
      name ∉ after.map Prod.fst := by
  have hat : (params.zip args)[k]? = some (name, v) := List.getElem?_zip_eq_some.mpr ⟨hk, hv⟩
  obtain ⟨hlt, heq⟩ := List.getElem?_eq_some_iff.mp hat
  refine ⟨(params.zip args).take k, (params.zip args).drop (k + 1), ?_, fun hm => ?_⟩
  · rw [← heq, ← List.drop_eq_getElem_cons hlt, List.take_append_drop]
  · obtain ⟨⟨_, w⟩, hmem, rfl⟩ := List.mem_map.mp hm
    obtain ⟨j, hj⟩ := List.mem_iff_getElem?.mp hmem
    rw [List.getElem?_drop, List.getElem?_zip_eq_some] at hj
    exact hlast (k + 1 + j) (by omega) hj.1

namespace Closure

/-- What a name means where the body of a call starts. -/
structure Resolves (code : Closure) (args : List Value) (st : Store) (name : String)
    (out : Except Fault Value) : Prop where
  /-- The argument at the last position whose parameter has the name. -/
  argument : ∀ k : Nat, code.params[k]? = some name →
    (∀ j, k < j → code.params[j]? ≠ some name) → ∃ v, args[k]? = some v ∧ out = .ok v
  /-- What the captured scope and those around it hold when the call is made. -/
  captured : name ∉ code.params → ∀ v, st.get? code.scope name = some v → out = .ok v
  builtin : name ∉ code.params → st.get? code.scope name = none →
    ∀ b : Builtin, b.name = name → out = .ok (.builtin b)
  undefined : name ∉ code.params → st.get? code.scope name = none →
    (∀ b : Builtin, b.name ≠ name) → out = .error (.undefined name)

variable {code : Closure} {args : List Value}

theorem get?_enter_of_last {name : String} {k : Nat} {v : Value}
    (hk : code.params[k]? = some name) (hv : args[k]? = some v)
    (hlast : ∀ j, k < j → code.params[j]? ≠ some name) (st : Store) :
    (code.enter args st).2.get? (code.enter args st).1 name = some v := by
  rw [get?_enter, Bindings.get?_setAll_eq_some_iff.mpr (zip_split_last hk hv hlast),
    Option.some_or]

theorem get?_enter_of_notMem {name : String} (h : name ∉ code.params) (st : Store) :
    (code.enter args st).2.get? (code.enter args st).1 name = st.get? code.scope name := by
  have hzip : name ∉ (code.params.zip args).map Prod.fst := by
    intro hm
    obtain ⟨d, hd, rfl⟩ := List.mem_map.mp hm
    exact h (List.of_mem_zip hd).1
  rw [get?_enter, Bindings.get?_setAll_eq_none_iff.mpr hzip, Option.none_or]

theorem resolves_enter (arity : code.arity = args.length) (st : Store) (name : String) :
    code.Resolves args st name
      (resolve (code.enter args st).1 name (code.enter args st).2).1 where
  argument k hk hlast := by
    obtain ⟨hlt, -⟩ := List.getElem?_eq_some_iff.mp hk
    obtain ⟨v, hv⟩ : ∃ v, args[k]? = some v :=
      ⟨_, List.getElem?_eq_getElem (show k < args.length from arity ▸ hlt)⟩
    exact ⟨v, hv, by rw [resolve, get?_enter_of_last hk hv hlast]⟩
  captured h v hv := by
    rw [resolve, get?_enter_of_notMem h, hv]
  builtin h hnone b hb := by
    rw [resolve, get?_enter_of_notMem h, hnone, ← hb, Builtin.ofName?_name]
  undefined h hnone hb := by
    rw [resolve, get?_enter_of_notMem h, hnone, Builtin.ofName?_eq_none hb]

end Closure

/-- Only the scopes that are looked into count. -/
theorem Store.get?_congr {st other : Store} {i : ScopeId}
    (h : ∀ j ∈ st.chain i, other.scope j = st.scope j) (name : String) :
    other.get? i name = st.get? i name := by
  have hchain : other.chain i = st.chain i := by
    rw [chain, chain, h i List.mem_cons_self]
  rw [get?, get?, hchain, ← List.head?_filterMap, ← List.head?_filterMap]
  exact congrArg List.head? (List.filterMap_congr fun j hj => by rw [h j hj])

/-- What a name means is decided by what is found under it. -/
theorem resolve_congr {st other : Store} {i j : ScopeId} {name : String}
    (h : other.get? j name = st.get? i name) :
    (resolve j name other).1 = (resolve i name st).1 := by
  unfold resolve
  rw [h]
  split
  · rfl
  · split <;> rfl

/-- The body of a call starts in the scope that `Closure.enter` makes. There a name means the
argument at the last position whose parameter has that name, or else what the captured scope and
those around it hold under it when the call is made, or else the builtin of that name, or else
nothing. The bindings of another scope, such as the one that the call is made from, make no
difference. -/
theorem resolve_in_call (code : Closure) (args : List Value) (arity : code.arity = args.length)
    (st : Store) :
    (∀ (limit : Nat) (id : ObjectId), st.depth < limit →
        Value.apply limit (.closure id code) args st =
          let started := code.enter args st
          let ran := Stmt.evalAll (Value.apply limit) started.1 code.body .null started.2
          (Halt.settle ran.1, { ran.2 with depth := ran.2.depth - 1 })) ∧
      (∀ name, code.Resolves args st name
        (resolve (code.enter args st).1 name (code.enter args st).2).1) ∧
      ∀ (name : String) (caller : ScopeId) (other : Store), caller ∉ st.chain code.scope →
        (∀ j, j ≠ caller → other.scope j = st.scope j) →
        (resolve (code.enter args other).1 name (code.enter args other).2).1 =
          (resolve (code.enter args st).1 name (code.enter args st).2).1 := by
  refine ⟨fun limit id room => ?_, Closure.resolves_enter arity st, ?_⟩
  · rw [Value.apply_closure, if_pos arity, if_pos room]
    rfl
  · intro name caller other hcaller hother
    refine resolve_congr ?_
    have hchain : ∀ j ∈ st.chain code.scope, other.scope j = st.scope j :=
      fun j hj => hother j fun h => hcaller (h ▸ hj)
    rw [code.get?_enter, code.get?_enter, Store.get?_congr hchain]

/-- A call of `fn(x, x) { late }` from scope 1, which has `late` as 7, while in the captured scope 0
it has come to be 5. -/
theorem resolve_in_call_late :
    let scopes := (Store.empty.newRoot.2.newInner 0).2
    let st := (scopes.define 1 "late" (.int 7)).define 0 "late" (.int 5)
    let code : Closure := ⟨["x", "x"], [.expr (.ident "late")], 0⟩
    let args : List Value := [.int 1, .int 2]
    let other := st.define 1 "late" (.int 8)
    let value := fun name st => (resolve (code.enter args st).1 name (code.enter args st).2).1
    code.arity = args.length ∧ 1 ∉ st.chain code.scope ∧
      value "x" st = .ok (.int 2) ∧ value "late" st = .ok (.int 5) ∧
      value "len" st = .ok (.builtin .len) ∧ value "y" st = .error (.undefined "y") ∧
      value "late" other = value "late" st ∧
      (Value.apply 5 (.closure 0 code) args st).1 = .ok (.int 5) := by
  intro scopes st code args other value
  obtain ⟨hstart, hnames, hcaller⟩ := resolve_in_call code args rfl st
  have hother : ∀ j, j ≠ 1 → other.scope j = st.scope j := by
    intro j hj
    rw [Store.scope_define, if_neg fun h => hj h.1.symm]
  have hlate : value "late" st = .ok (.int 5) := (hnames "late").captured (by decide) _ rfl
  have hbody (i : ScopeId) (st : Store) :
      Halt.settle (Stmt.evalAll (Value.apply 5) i code.body .null st).1 =
        (resolve i "late" st).1 := by
    simp only [code, Stmt.evalAll, Stmt.eval, Expr.eval, Run.bind_apply, Step.eval_apply]
    rcases resolve i "late" st with ⟨_ | _, _⟩ <;> rfl
  refine ⟨rfl, by decide, ?_, hlate, ?_, ?_, ?_, ?_⟩
  · have hlast : ∀ j, 1 < j → code.params[j]? ≠ some "x" := by
      intro j hj
      rw [List.getElem?_eq_none (show code.params.length ≤ j from hj)]
      exact (Option.some_ne_none "x").symm
    obtain ⟨v, hv, hx⟩ := (hnames "x").argument 1 rfl hlast
    cases hv
    exact hx
  · exact (hnames "len").builtin (by decide) rfl .len rfl
  · exact (hnames "y").undefined (by decide) rfl (fun b => by cases b <;> decide)
  · exact hcaller "late" 1 other (by decide) hother
  · rw [hstart 5 0 (by decide)]
    dsimp only
    rw [hbody]
    exact hlate

end Sprig
