import Sprig.Proofs.Evaluation.Showing

/-!
What an evaluation does to the store.

`Effects limit i` lists it once: objects are made, values printed, names defined in scope `i`, and
closures called, each in a new scope and only while fewer than `limit` calls are running. Every
evaluation in scope `i` is made of these, however it ends. What evaluations keep is proved from
there by induction, without another look at the trees; the first such fact is that the number of
running calls is the same before and after.
-/

namespace Sprig

/-- What evaluation in a scope makes of a store. -/
inductive Effects (limit : Nat) : ScopeId → Store → Store → Prop
  | none {i : ScopeId} (st : Store) : Effects limit i st st
  | andThen {i : ScopeId} {st st' st'' : Store} (first : Effects limit i st st')
      (second : Effects limit i st' st'') : Effects limit i st st''
  | object {i : ScopeId} (st : Store) : Effects limit i st st.newObject.2
  | print {i : ScopeId} (st : Store) (v : Value) : Effects limit i st (st.print v)
  | define {i : ScopeId} (st : Store) (name : String) (v : Value) :
      Effects limit i st (st.define i name v)
  | call {i : ScopeId} {st st' : Store} (code : Closure) (args : List Value)
      (room : st.depth < limit)
      (body : Effects limit (code.enter args st).1 (code.enter args st).2 st') :
      Effects limit i st { st' with depth := st'.depth - 1 }

theorem Store.depth_defineAll (st : Store) (i : ScopeId) (bs : List (String × Value)) :
    (st.defineAll i bs).depth = st.depth := by
  induction bs generalizing st with
  | nil => rfl
  | cons b bs ih => exact ih (st.define i b.1 b.2)

theorem Closure.depth_enter (code : Closure) (args : List Value) (st : Store) :
    (code.enter args st).2.depth = st.depth + 1 := by
  rw [enter, Store.depth_defineAll]
  rfl

theorem Effects.depth_eq {limit : Nat} {i : ScopeId} {st st' : Store}
    (h : Effects limit i st st') : st'.depth = st.depth := by
  induction h with
  | none _ | object _ | print _ _ | define _ _ _ => rfl
  | andThen _ _ ih ih' => rw [ih', ih]
  | call code args room _ ih =>
      rw [Closure.depth_enter] at ih
      simp [ih]

variable {limit d : Nat} {i : ScopeId} {ε δ α β : Type}

/-- From every store with `d` running calls, `x` has only the effects of evaluation in scope `i`. -/
def Run.Does (limit d : Nat) (i : ScopeId) (x : Run ε α) : Prop :=
  ∀ st, st.depth = d → Effects limit i st (x st).2

namespace Run.Does

theorem of_store_eq {x : Run ε α} (h : ∀ st, (x st).2 = st) : x.Does limit d i := by
  intro st _
  rw [h]
  exact .none st

theorem pure (a : α) : (pure a : Run ε α).Does limit d i := of_store_eq fun _ => rfl

theorem stop (e : ε) : (Run.stop e : Run ε α).Does limit d i := of_store_eq fun _ => rfl

theorem step {f : Store → α × Store} (h : ∀ st, Effects limit i st (f st).2) :
    (Run.step f : Run ε α).Does limit d i := fun st _ => h st

theorem lift {x : Run δ α} (h : x.Does limit d i) (into : δ → ε) :
    (Run.lift into x).Does limit d i := by
  intro st hd
  have hx := h st hd
  unfold Run.lift
  generalize x st = out at hx ⊢
  obtain ⟨_ | _, _⟩ := out <;> exact hx

theorem bind {x : Run ε α} {f : α → Run ε β} (hx : x.Does limit d i)
    (hf : ∀ a, (f a).Does limit d i) : (x >>= f).Does limit d i := by
  intro st hd
  have h := hx st hd
  rw [bind_apply]
  generalize x st = out at h ⊢
  obtain ⟨_ | a, st'⟩ := out
  · exact h
  · exact h.andThen (hf a st' (h.depth_eq.trans hd))

theorem map {x : Run ε α} (hx : x.Does limit d i) (f : α → β) : (f <$> x).Does limit d i :=
  hx.bind fun _ => .pure _

end Run.Does

open Run

theorem Store.newString_does (s : String) :
    (Run.step fun st => st.newString s : Run ε Value).Does limit d i :=
  .step fun st => .object st

theorem Store.newArray_does (vs : List Value) :
    (Run.step fun st => st.newArray vs : Run ε Value).Does limit d i :=
  .step fun st => .object st

theorem Store.newClosure_does (code : Closure) :
    (Run.step fun st => st.newClosure code : Run ε Value).Does limit d i :=
  .step fun st => .object st

theorem resolve_does (name : String) : (resolve i name).Does limit d i := by
  refine .of_store_eq fun st => ?_
  unfold resolve
  split
  · rfl
  · split <;> rfl

theorem UnaryOp.apply_does (op : UnaryOp) (v : Value) : (op.apply v).Does limit d i := by
  cases op with
  | not => exact .pure _
  | negate =>
      cases v with
      | int n =>
          refine .of_store_eq fun st => ?_
          cases h : Integer.neg? n <;> simp [UnaryOp.apply, h, Run.stop]
      | _ => exact .stop _

theorem BinaryOp.apply_does (op : BinaryOp) (a b : Value) : (op.apply a b).Does limit d i := by
  fun_cases BinaryOp.apply op a b with
  | case1 m n => exact .of_store_eq fun _ => rfl
  | case2 _ s _ t =>
      cases op with
      | add => exact Store.newString_does (s ++ t)
      | eq | notEq => exact .pure _
      | sub | mul | div | lt | gt => exact .stop _
  | case3 => exact .of_store_eq fun _ => rfl

theorem Value.index_does (a b : Value) : (a.index b).Does limit d i := by
  unfold Value.index
  split
  · split <;> exact .pure _
  · exact .stop _

theorem Builtin.runPuts_does (vs : List Value) : (runPuts vs).Does limit d i := by
  induction vs with
  | nil => exact .pure _
  | cons v vs ih =>
      intro st hd
      exact (Effects.print st v).andThen (ih (st.print v) hd)

theorem Builtin.runHelp_does (vs : List Value) : (runHelp vs).Does limit d i := by
  unfold runHelp
  split
  · exact Store.newString_does manual
  · split
    · exact Store.newString_does _
    · exact .stop _
  · exact .stop _

theorem Builtin.run_does (b : Builtin) (args : List Value) : (b.run args).Does limit d i := by
  fun_cases Builtin.run b args with
  | case1 v =>
      cases v with
      | str _ _ | array _ _ => exact .pure _
      | _ => exact .stop _
  | case2 v | case3 v =>
      cases v with
      | array _ _ => exact .pure _
      | _ => exact .stop _
  | case4 a v =>
      cases a with
      | array _ items => exact Store.newArray_does (items ++ [v])
      | _ => exact .stop _
  | case5 v => exact Store.newString_does v.type.name
  | case6 => exact runPuts_does args
  | case7 => exact runHelp_does args
  | case8 => exact .stop _

variable {call : Applier}

mutual

theorem Expr.eval_does (hcall : ∀ f args, (call f args).Does limit d i) :
    ∀ e : Expr, (e.eval call i).Does limit d i
  | .ident name => (resolve_does name).lift _
  | .int _ => .pure _
  | .str s => Store.newString_does s
  | .bool _ => .pure _
  | .array items => (Expr.evalAll_does hcall items).bind Store.newArray_does
  | .unary op e => (e.eval_does hcall).bind fun v => (op.apply_does v).lift _
  | .binary op a b =>
      (a.eval_does hcall).bind fun v => (b.eval_does hcall).bind fun w =>
        (op.apply_does v w).lift _
  | .cond test yes none => by
      refine (test.eval_does hcall).bind fun v => ?_
      split
      · exact Stmt.evalAll_does hcall yes _
      · exact .pure _
  | .cond test yes (some no) => by
      refine (test.eval_does hcall).bind fun v => ?_
      split
      · exact Stmt.evalAll_does hcall yes _
      · exact Stmt.evalAll_does hcall no _
  | .function params body => Store.newClosure_does ⟨params, body, i⟩
  | .call callee args =>
      (callee.eval_does hcall).bind fun f => (Expr.evalAll_does hcall args).bind fun vs =>
        (hcall f vs).lift _
  | .index a b =>
      (a.eval_does hcall).bind fun v => (b.eval_does hcall).bind fun w => (v.index_does w).lift _

theorem Expr.evalAll_does (hcall : ∀ f args, (call f args).Does limit d i) :
    ∀ es : List Expr, (Expr.evalAll call i es).Does limit d i
  | [] => .pure _
  | e :: es => (e.eval_does hcall).bind fun _ => (Expr.evalAll_does hcall es).bind fun _ => .pure _

theorem Stmt.eval_does (hcall : ∀ f args, (call f args).Does limit d i) :
    ∀ s : Stmt, (s.eval call i).Does limit d i
  | .bind name value => (value.eval_does hcall).bind fun v => .step fun st => .define st name v
  | .ret value => (value.eval_does hcall).bind fun _ => .stop _
  | .expr value => value.eval_does hcall
  | .block body => Stmt.evalAll_does hcall body _

theorem Stmt.evalAll_does (hcall : ∀ f args, (call f args).Does limit d i) :
    ∀ (ss : List Stmt) (last : Value), (Stmt.evalAll call i ss last).Does limit d i
  | [], _ => .pure _
  | s :: ss, _ => (s.eval_does hcall).bind fun v => Stmt.evalAll_does hcall ss v

end

/-- What a call comes down to. Only the call of a closure with the right number of arguments depends
on the room. -/
theorem Value.applyWithin_cases {room : Nat} {P : Value → List Value → Step Value → Prop}
    (builtin : ∀ b args, P (.builtin b) args (b.run args))
    (other : ∀ f args, f.isCallable = false → P f args (Run.stop (.notCallable f.type)))
    (arity : ∀ id code args, code.arity ≠ args.length →
      P (.closure id code) args (Run.stop (.arity code.arity args.length)))
    (overflow : room = 0 → ∀ id code args, code.arity = args.length →
      P (.closure id code) args (Run.stop (.stackOverflow limit)))
    (body : ∀ less, room = less + 1 → ∀ id code args, code.arity = args.length →
      P (.closure id code) args (code.run (Value.applyWithin limit less) args))
    (f : Value) (args : List Value) : P f args (Value.applyWithin limit room f args) := by
  cases f with
  | closure id code =>
      by_cases h : code.arity = args.length
      · cases room with
        | zero =>
            rw [Value.applyWithin, if_pos h]
            exact overflow rfl id code args h
        | succ less =>
            rw [Value.applyWithin, if_pos h]
            exact body less rfl id code args h
      · have ha := arity id code args h
        cases room <;> rwa [Value.applyWithin, if_neg h]
  | builtin b => cases room <;> exact builtin b args
  | int _ | str _ _ | bool _ | null | array _ _ => cases room <;> exact other _ args rfl

theorem Value.applyWithin_does (room : Nat) :
    ∀ (d : Nat) (i : ScopeId), room ≤ limit - d → ∀ (f : Value) (args : List Value),
      (Value.applyWithin limit room f args).Does limit d i := by
  -- inside of a call one call less fits, and one more is running
  induction room using Nat.strongRecOn with
  | ind room ih =>
      intro d i hroom
      refine Value.applyWithin_cases ?_ ?_ ?_ ?_ ?_
      · exact fun b args => b.run_does args
      · exact fun _ _ _ => .stop _
      · exact fun _ _ _ _ => .stop _
      · exact fun _ _ _ _ _ => .stop _
      · intro less hless id code args _ st hd
        have hcall := ih less (by omega) (d + 1) (code.enter args st).1 (by omega)
        have hbody := Stmt.evalAll_does hcall code.body .null (code.enter args st).2
          (by rw [code.depth_enter, hd])
        exact .call code args (by omega) hbody

theorem Value.apply_does (f : Value) (args : List Value) :
    (Value.apply limit f args).Does limit d i := by
  rintro st rfl
  exact Value.applyWithin_does (limit - st.depth) st.depth i (Nat.le_refl _) f args st rfl

namespace Effects

variable (limit : Nat) (i : ScopeId) (st : Store)

theorem of_apply (f : Value) (args : List Value) :
    Effects limit i st (Value.apply limit f args st).2 :=
  Value.apply_does f args st rfl

theorem of_expr (e : Expr) : Effects limit i st (e.eval (Value.apply limit) i st).2 :=
  e.eval_does Value.apply_does st rfl

theorem of_stmt (s : Stmt) : Effects limit i st (s.eval (Value.apply limit) i st).2 :=
  s.eval_does Value.apply_does st rfl

theorem of_block (ss : Block) :
    Effects limit i st (Stmt.evalAll (Value.apply limit) i ss .null st).2 :=
  Stmt.evalAll_does Value.apply_does ss .null st rfl

theorem of_program (p : Program) : Effects limit i st (p.eval limit i st).2 := by
  rw [p.eval_eq_settle]
  exact of_block limit i st p.statements

end Effects

end Sprig
