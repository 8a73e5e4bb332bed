import Sprig.Proofs.Evaluation.Machine

/-!
The machine computes what the evaluator says.

`Computes` relates a state, up to the frames below, to a computation on the store: the machine gets
from there to its result, with the frames untouched. One rule steps, one rule runs through a frame,
and each form of the tree is a few applications of the two. The tree is followed by induction inside
of an induction on the number of calls that still fit, which shrinks only where a body is entered;
that the evaluator hands back the count of running calls is part of the statement.
-/

namespace Sprig

theorem Builtin.invoke_eq (b : Builtin) (args : List Value) :
    b.invoke args = some (b.run args) := by
  cases b with
  | len | first | last | typeOf =>
      rcases args with _ | ⟨a, _ | ⟨c, args⟩⟩ <;> rfl
  | push =>
      rcases args with _ | ⟨a, _ | ⟨c, _ | ⟨e, args⟩⟩⟩ <;> rfl
  | puts | help => rfl

theorem Closure.run_of_shownAll {call : Applier} {code : Closure} {args : List Value}
    {st st' : Store} {r : Except Halt (Option Value)}
    (h : Stmt.shownAll call (code.enter args st).1 code.body none (code.enter args st).2 =
      (r, st')) :
    code.run call args st =
      (Halt.settle (r.map .orNull), { st' with depth := st'.depth - 1 }) := by
  have hrun : Stmt.evalAll call (code.enter args st).1 code.body .null (code.enter args st).2 =
      (r.map .orNull, st') := by
    rw [Stmt.evalAll_null, Run.map_apply, h]
  unfold Closure.run
  dsimp only
  rw [hrun]

theorem Value.apply_builtin (limit : Nat) (b : Builtin) (args : List Value) :
    Value.apply limit (.builtin b) args = b.run args := by
  funext st
  rw [Value.apply]
  cases limit - st.depth <;> rfl

namespace Machine

variable {limit d : Nat} {i : ScopeId} {call : Applier}

/-- From every store with `d` running calls, `σ` leads to the outcome of `x`, and again `d` calls
are running there. -/
def Computes (limit d : Nat) (σ : List Frame → Store → State) (x : Eval (Option Value)) : Prop :=
  ∀ k st, st.depth = d → Reaches limit (σ k st) (ofRun x k st) ∧ (x st).2.depth = d

namespace Computes

variable {σ τ : List Frame → Store → State} {x : Eval (Option Value)}
  {f : Option Value → Eval (Option Value)}

theorem ofRun (i : ScopeId) (h : x.Does limit d i) : Computes limit d (ofRun x) x := by
  intro k st hd
  exact ⟨.refl, (h st hd).depth_eq.trans hd⟩

theorem step (hstep : ∀ k st, step limit (σ k st) = some (τ k st))
    (h : Computes limit d τ x) : Computes limit d σ x := by
  intro k st hd
  obtain ⟨hreach, hdepth⟩ := h k st hd
  exact ⟨hreach.head (hstep k st), hdepth⟩

/-- Run `x` above a frame and hand its value over. -/
theorem bind {F : Focus} {fr : Frame} (hfr : fr ≠ .body)
    (hx : Computes limit d (fun k st => ⟨F, k, st⟩) x)
    (hf : ∀ shown, Computes limit d (fun k st => resume shown k st fr) (f shown)) :
    Computes limit d (fun k st => ⟨F, fr :: k, st⟩) (x >>= f) := by
  intro k st hd
  obtain ⟨hreach, hdepth⟩ := hx (fr :: k) st hd
  rw [Machine.ofRun, Run.bind_apply]
  rw [Machine.ofRun] at hreach
  generalize x st = out at hreach hdepth ⊢
  obtain ⟨h | shown, st'⟩ := out
  · have hunwind : Machine.step limit ⟨.result (.error h), fr :: k, st'⟩ =
        some ⟨.result (.error h), k, st'⟩ := by
      cases fr <;> first | rfl | contradiction
    exact ⟨hreach.tail hunwind, hdepth⟩
  · obtain ⟨hreach', hdepth'⟩ := hf shown k st' hdepth
    exact ⟨(hreach.tail rfl).trans hreach', hdepth'⟩

end Computes

/-- What the evaluator makes of the values of a list. -/
def Use.value (call : Applier) (vs : List Value) : Use → Eval Value
  | .array => Run.step fun st => st.newArray vs
  | .arguments f => (call f vs).eval

/-- The machine makes the same calls as `call` where `d` calls are running. -/
def Calls (limit d : Nat) (call : Applier) : Prop :=
  ∀ f args, Computes limit d (fun k st => ⟨.call f args, k, st⟩) (some <$> (call f args).eval)

theorem finish_computes (hcall : Calls limit d call) (vs : List Value) (use : Use) :
    Computes limit d (fun k st => use.finish vs k st) (some <$> use.value call vs) := by
  cases use with
  | array => exact .ofRun 0 (.map (Store.newArray_does vs) some)
  | arguments f => exact hcall f vs

theorem bind_eval (e : Expr) {α : Type} (f : Value → Eval α) :
    e.eval call i >>= f = e.shown call i >>= fun shown => f (.orNull shown) := by
  rw [e.eval_eq_map_shown, bind_map_left]

mutual

theorem expr_computes (hcall : Calls limit d call) :
    ∀ e : Expr, Computes limit d (fun k st => ⟨.expr i e, k, st⟩) (e.shown call i)
  | .ident name => .step (fun _ _ => rfl) (.ofRun i (.map ((resolve_does name).lift _) some))
  | .int _ => .step (fun _ _ => rfl) (.ofRun i (.pure _))
  | .str s => .step (fun _ _ => rfl) (.ofRun i (.map (Store.newString_does s) some))
  | .bool _ => .step (fun _ _ => rfl) (.ofRun i (.pure _))
  | .array items => by
      have h : (Expr.array items).shown call i =
          Expr.evalAll call i items >>= fun vs => some <$> Use.value call ([] ++ vs) .array := by
        simp only [Expr.shown, Expr.eval, Use.value, List.nil_append, bind_assoc, map_eq_pure_bind]
      rw [h]
      exact .step (fun _ _ => rfl) (items_computes hcall items .array [])
  | .unary op e => by
      have h : (Expr.unary op e).shown call i =
          e.shown call i >>= fun x => some <$> (op.apply (.orNull x)).eval := by
        simp only [Expr.shown, Expr.eval, bind_eval, bind_assoc, map_eq_pure_bind]
      rw [h]
      refine .step (fun _ _ => rfl) (.bind (by simp) (expr_computes hcall e) fun x => ?_)
      exact .ofRun i (.map ((op.apply_does _).lift _) some)
  | .binary op a b => by
      have h : (Expr.binary op a b).shown call i =
          a.shown call i >>= fun x => b.shown call i >>= fun y =>
            some <$> (op.apply (.orNull x) (.orNull y)).eval := by
        simp only [Expr.shown, Expr.eval, bind_eval, bind_assoc, map_eq_pure_bind]
      rw [h]
      refine .step (fun _ _ => rfl) (.bind (by simp) (expr_computes hcall a) fun x => ?_)
      refine .bind (by simp) (expr_computes hcall b) fun y => ?_
      exact .ofRun i (.map ((op.apply_does _ _).lift _) some)
  | .cond test yes none => by
      rw [Expr.shown, bind_eval]
      refine .step (fun _ _ => rfl) (.bind (by simp) (expr_computes hcall test) fun x => ?_)
      simp only [resume]
      split
      · exact stmts_computes hcall yes none
      · exact .ofRun i (.pure _)
  | .cond test yes (some no) => by
      rw [Expr.shown, bind_eval]
      refine .step (fun _ _ => rfl) (.bind (by simp) (expr_computes hcall test) fun x => ?_)
      simp only [resume]
      split
      · exact stmts_computes hcall yes none
      · exact stmts_computes hcall no none
  | .function params body =>
      .step (fun _ _ => rfl) (.ofRun i (.map (Store.newClosure_does ⟨params, body, i⟩) some))
  | .call callee args => by
      have h : (Expr.call callee args).shown call i =
          callee.shown call i >>= fun x => Expr.evalAll call i args >>= fun vs =>
            some <$> Use.value call ([] ++ vs) (.arguments (.orNull x)) := by
        simp only [Expr.shown, Expr.eval, Use.value, List.nil_append, bind_eval, bind_assoc,
          map_eq_pure_bind]
      rw [h]
      refine .step (fun _ _ => rfl) (.bind (by simp) (expr_computes hcall callee) fun x => ?_)
      exact items_computes hcall args (.arguments (.orNull x)) []
  | .index a b => by
      have h : (Expr.index a b).shown call i =
          a.shown call i >>= fun x => b.shown call i >>= fun y =>
            some <$> ((Value.orNull x).index (.orNull y)).eval := by
        simp only [Expr.shown, Expr.eval, bind_eval, bind_assoc, map_eq_pure_bind]
      rw [h]
      refine .step (fun _ _ => rfl) (.bind (by simp) (expr_computes hcall a) fun x => ?_)
      refine .bind (by simp) (expr_computes hcall b) fun y => ?_
      exact .ofRun i (.map ((Value.index_does _ _).lift _) some)

theorem items_computes (hcall : Calls limit d call) :
    ∀ (es : List Expr) (use : Use) (done : List Value),
      Computes limit d (fun k st => ⟨.items i use done es, k, st⟩)
        (Expr.evalAll call i es >>= fun vs => some <$> use.value call (done ++ vs))
  | [], use, done => by
      rw [Expr.evalAll, pure_bind, List.append_nil]
      exact .step (fun _ _ => rfl) (finish_computes hcall done use)
  | e :: es, use, done => by
      have h : (Expr.evalAll call i (e :: es) >>= fun vs => some <$> use.value call (done ++ vs)) =
          e.shown call i >>= fun x => Expr.evalAll call i es >>= fun vs =>
            some <$> use.value call (done ++ [.orNull x] ++ vs) := by
        simp only [Expr.evalAll, bind_eval, bind_assoc, pure_bind, List.append_assoc,
          List.singleton_append]
      rw [h]
      refine .step (fun _ _ => rfl) (.bind (by simp) (expr_computes hcall e) fun x => ?_)
      exact items_computes hcall es use (done ++ [.orNull x])

theorem stmt_computes (hcall : Calls limit d call) :
    ∀ s : Stmt, Computes limit d (fun k st => ⟨.stmt i s, k, st⟩) (s.shown call i)
  | .bind name value => by
      have h : (Stmt.bind name value).shown call i =
          value.shown call i >>= fun x =>
            Run.step fun st => (none, st.define i name (.orNull x)) := by
        simp only [Stmt.shown, Stmt.eval, bind_eval, bind_assoc]
        rfl
      rw [h]
      refine .step (fun _ _ => rfl) (.bind (by simp) (expr_computes hcall value) fun x => ?_)
      exact .ofRun i (.step fun st => .define st name _)
  | .ret value => by
      have h : (Stmt.ret value).shown call i =
          value.shown call i >>= fun x => Run.stop (.returned (.orNull x)) := by
        simp only [Stmt.shown, Stmt.eval, bind_eval, bind_assoc]
        rfl
      rw [h]
      refine .step (fun _ _ => rfl) (.bind (by simp) (expr_computes hcall value) fun x => ?_)
      exact .ofRun i (.stop _)
  | .expr value => .step (fun _ _ => rfl) (expr_computes hcall value)
  | .block body => .step (fun _ _ => rfl) (stmts_computes hcall body none)

theorem stmts_computes (hcall : Calls limit d call) :
    ∀ (ss : List Stmt) (last : Option Value),
      Computes limit d (fun k st => ⟨.stmts i ss last, k, st⟩) (Stmt.shownAll call i ss last)
  | [], last => .step (fun _ _ => rfl) (.ofRun i (.pure last))
  | s :: ss, _ => by
      rw [Stmt.shownAll]
      refine .step (fun _ _ => rfl) (.bind (by simp) (stmt_computes hcall s) fun shown => ?_)
      exact stmts_computes hcall ss shown

end

theorem step_body (r : Except Halt (Option Value)) (k : List Frame) (st : Store) :
    step limit ⟨.result r, .body :: k, st⟩ =
      some ⟨.result (((Halt.settle (r.map .orNull)).mapError .fault).map some), k,
        { st with depth := st.depth - 1 }⟩ := by
  cases r <;> rfl

/-- A body that is entered runs to its end, and the call is left again. -/
theorem body_reaches (hcall : Calls limit (d + 1) call) (code : Closure) (args : List Value)
    (k : List Frame) {st : Store} (hd : st.depth = d) :
    Reaches limit
        ⟨.stmts (code.enter args st).1 code.body none, .body :: k, (code.enter args st).2⟩
        (ofRun (some <$> (code.run call args).eval) k st) ∧
      ((some <$> (code.run call args).eval) st).2.depth = d := by
  obtain ⟨hreach, hdepth⟩ := stmts_computes hcall code.body none (.body :: k) (code.enter args st).2
    (by rw [code.depth_enter, hd])
  rw [ofRun, Run.map_apply, Step.eval_apply]
  rw [ofRun] at hreach
  cases hout : Stmt.shownAll call (code.enter args st).1 code.body none (code.enter args st).2 with
  | mk r st' =>
      rw [hout] at hreach hdepth
      rw [Closure.run_of_shownAll hout]
      refine ⟨hreach.tail (step_body r k st'), ?_⟩
      change st'.depth = d + 1 at hdepth
      change st'.depth - 1 = d
      omega

theorem builtin_computes (b : Builtin) (args : List Value) :
    Computes limit d (fun k st => ⟨.call (.builtin b) args, k, st⟩)
      (some <$> (b.run args).eval) := by
  refine .step (fun k st => ?_) (.ofRun 0 (.map ((b.run_does args).lift _) some))
  rw [step, Machine.call, b.invoke_eq, Option.map_some]

theorem stop_computes (fault : Fault) {f : Value} {args : List Value}
    (hstep : ∀ k st, step limit ⟨.call f args, k, st⟩ =
      some (ofRun (Run.stop (.fault fault)) k st)) :
    Computes limit d (fun k st => ⟨.call f args, k, st⟩) (some <$> Step.eval (Run.stop fault)) :=
  .step hstep (.ofRun 0 (.stop (Halt.fault fault)))

theorem applyWithin_calls (room : Nat) :
    ∀ d, room = limit - d → Calls limit d (Value.applyWithin limit room) := by
  induction room using Nat.strongRecOn with
  | ind room ih =>
      intro d hroom
      refine Value.applyWithin_cases (P := fun f args x =>
        Computes limit d (fun k st => ⟨.call f args, k, st⟩) (some <$> x.eval)) ?_ ?_ ?_ ?_ ?_
      · exact builtin_computes
      · intro f args hf
        refine stop_computes (.notCallable f.type) fun k st => ?_
        cases f <;> first | rfl | cases hf
      · intro id code args harity
        refine stop_computes (.arity code.arity args.length) fun k st => ?_
        rw [step, Machine.call, if_neg harity]
      · intro hzero id code args harity k st hd
        have hstep : step limit ⟨.call (.closure id code) args, k, st⟩ =
            some (ofRun (Run.stop (.fault (.stackOverflow limit))) k st) := by
          rw [step, Machine.call, if_pos harity, if_neg (by omega)]
        exact ⟨.single hstep, hd⟩
      · intro less hless id code args harity k st hd
        have hstep : step limit ⟨.call (.closure id code) args, k, st⟩ = some
            ⟨.stmts (code.enter args st).1 code.body none, .body :: k, (code.enter args st).2⟩ := by
          rw [step, Machine.call, if_pos harity, if_pos (by omega)]
        obtain ⟨hreach, hdepth⟩ :=
          body_reaches (ih less (by omega) (d + 1) (by omega)) code args k hd
        exact ⟨hreach.head hstep, hdepth⟩

theorem apply_calls (limit d : Nat) : Calls limit d (Value.apply limit) := by
  rintro f args k st rfl
  exact applyWithin_calls (limit - st.depth) st.depth rfl f args k st rfl

theorem step_result_nil (r : Except Halt (Option Value)) (st : Store) :
    step limit ⟨.result r, [], st⟩ = none := by
  cases r <;> rfl

theorem mem_eval_of_computes {F : Focus} {x : Eval (Option Value)} {st : Store}
    (h : Computes limit st.depth (fun k st => ⟨F, k, st⟩) x) :
    ofRun x [] st ∈ StateTransition.eval (step limit) ⟨F, [], st⟩ :=
  StateTransition.mem_eval.2 ⟨(h [] st rfl).1, step_result_nil _ _⟩

/-- A run that comes to an end cannot go on for ever. -/
theorem not_forever {σ τ : State} (h : τ ∈ StateTransition.eval (step limit) σ) :
    ¬ ∃ run : Nat → State, run 0 = σ ∧ ∀ n, step limit (run n) = some (run (n + 1)) := by
  refine StateTransition.evalInduction h fun σ _ ih => ?_
  rintro ⟨run, rfl, hrun⟩
  exact ih (run 1) (hrun 0) ⟨fun n => run (n + 1), rfl, fun n => hrun (n + 1)⟩

end Machine

/-- Evaluating a program comes to an end, whatever the program, the store and the limit: in single
steps it is a run that ends with the value or the fault of the program, and no run of it goes on for
ever. No builtin that is called takes an argument that is not there. -/
theorem program_terminates (limit : Nat) (i : ScopeId) (p : Program) (st : Store) :
    let start : Machine.State := ⟨.stmts i p.statements none, [], st⟩
    (∃ r, ⟨.result r, [], (p.eval limit i st).2⟩ ∈
          StateTransition.eval (Machine.step limit) start ∧
        (p.eval limit i st).1 = Halt.settle (r.map .orNull)) ∧
      (¬ ∃ run : Nat → Machine.State, run 0 = start ∧
        ∀ n, Machine.step limit (run n) = some (run (n + 1))) ∧
      ∀ (b : Builtin) (args : List Value),
        b.invoke args = some (Value.apply limit (.builtin b) args) := by
  intro start
  have hend : Machine.ofRun (Stmt.shownAll (Value.apply limit) i p.statements none) [] st ∈
      StateTransition.eval (Machine.step limit) start :=
    Machine.mem_eval_of_computes
      (Machine.stmts_computes (Machine.apply_calls limit st.depth) p.statements none)
  refine ⟨⟨(Stmt.shownAll (Value.apply limit) i p.statements none st).1, ?_, ?_⟩,
    Machine.not_forever hend, fun b args => ?_⟩
  · rw [p.eval_eq_settle, Stmt.evalAll_null, Run.map_apply]
    exact hend
  · rw [p.eval_eq_settle, Stmt.evalAll_null, Run.map_apply]
  · rw [b.invoke_eq, Value.apply_builtin]

end Sprig
