import Sprig.Proofs.Evaluation.Adequacy
import Sprig.Session

/-!
The count of running calls is exact.

A step of the machine changes the count only where it puts the body of a closure on the stack or
takes one off, so the count follows the stack. It goes up only below the limit. Hence it stays
within the limit at every point of a run, and is back at its start when the run ends, however that
is. A session therefore starts each text with no call running, whatever failed before.
-/

namespace Sprig

namespace Machine

variable {limit base : Nat} {k : List Frame} {st : Store}

/-- The number of bodies on the stack. -/
def bodies : List Frame → Nat
  | [] => 0
  | .body :: k => bodies k + 1
  | _ :: k => bodies k

/-- Besides `base` calls, as many are running as there are bodies on the stack, and all of them are
within the limit. -/
def Level (limit base : Nat) (k : List Frame) (st : Store) : Prop :=
  st.depth = base + bodies k ∧ st.depth ≤ limit

def State.Level (limit base : Nat) (σ : State) : Prop :=
  Machine.Level limit base σ.stack σ.store

namespace Level

theorem ofRun (h : Level limit base k st) (i : ScopeId) {x : Eval (Option Value)}
    (hx : x.Does limit st.depth i) : (ofRun x k st).Level limit base := by
  have hd := (hx st rfl).depth_eq
  exact ⟨hd.trans h.1, hd.trans_le h.2⟩

theorem expr (h : Level limit base k st) (i : ScopeId) (e : Expr) :
    (expr i k st e).Level limit base := by
  cases e with
  | ident name => exact h.ofRun i (.map ((resolve_does name).lift _) some)
  | int _ | bool _ => exact h.ofRun i (.pure _)
  | str s => exact h.ofRun i (.map (Store.newString_does s) some)
  | function params body =>
      exact h.ofRun i (.map (Store.newClosure_does ⟨params, body, i⟩) some)
  | array _ | unary _ _ | binary _ _ _ | cond _ _ _ | call _ _ | index _ _ => exact h

theorem finish (h : Level limit base k st) (vs : List Value) (use : Use) :
    (use.finish vs k st).Level limit base := by
  cases use with
  | array => exact h.ofRun 0 (.map (Store.newArray_does vs) some)
  | arguments f => exact h

theorem enter (h : Level limit base k st) (room : st.depth < limit) (code : Closure)
    (args : List Value) : Level limit base (.body :: k) (code.enter args st).2 := by
  refine ⟨?_, ?_⟩
  · rw [code.depth_enter, h.1, bodies, Nat.add_assoc]
  · rw [code.depth_enter]
    exact room

theorem call (h : Level limit base k st) {f : Value} {args : List Value} {τ : State}
    (hstep : call limit args k st f = some τ) : τ.Level limit base := by
  cases f with
  | closure id code =>
      rw [Machine.call] at hstep
      split at hstep
      · split at hstep
        · next room =>
            cases hstep
            exact h.enter room code args
        · cases hstep
          exact h.ofRun 0 (.stop _)
      · cases hstep
        exact h.ofRun 0 (.stop _)
  | builtin b =>
      rw [Machine.call, b.invoke_eq] at hstep
      cases hstep
      exact h.ofRun 0 (.map ((b.run_does args).lift _) some)
  | int _ | str _ _ | bool _ | null | array _ _ =>
      cases hstep
      exact h.ofRun 0 (.stop _)

theorem leave (h : Level limit base (.body :: k) st) :
    Level limit base k { st with depth := st.depth - 1 } := by
  obtain ⟨hd, hle⟩ := h
  rw [bodies] at hd
  refine ⟨?_, Nat.le_trans (Nat.sub_le _ _) hle⟩
  change st.depth - 1 = base + bodies k
  omega

theorem resume {fr : Frame} (h : Level limit base (fr :: k) st) (shown : Option Value) :
    (resume shown k st fr).Level limit base := by
  cases fr with
  | operand op => exact ofRun h 0 (.map ((op.apply_does _).lift _) some)
  | right op left => exact ofRun h 0 (.map ((op.apply_does _ _).lift _) some)
  | test i yes no =>
      simp only [Machine.resume]
      split
      · exact h
      · cases no <;> exact h
  | position subject => exact ofRun h 0 (.map ((subject.index_does _).lift _) some)
  | bound i name => exact ofRun h i (.step fun st => .define st name _)
  | body => exact h.leave
  | item _ _ _ _ | left _ _ _ | callee _ _ | subject _ _ | returned | statement _ _ => exact h

theorem unwind {fr : Frame} (h : Level limit base (fr :: k) st) (e : Halt) :
    (unwind e k st fr).Level limit base := by
  cases fr with
  | body => exact h.leave
  | _ => exact h

end Level

theorem State.Level.step {σ τ : State} (h : σ.Level limit base) (hstep : step limit σ = some τ) :
    τ.Level limit base := by
  obtain ⟨F, k, st⟩ := σ
  cases F with
  | expr i e =>
      cases hstep
      exact Machine.Level.expr h i e
  | items i use done rest =>
      cases rest with
      | nil =>
          cases hstep
          exact Machine.Level.finish h done use
      | cons e rest =>
          cases hstep
          exact h
  | stmt i s =>
      cases hstep
      cases s <;> exact h
  | stmts i ss last => cases ss <;> cases hstep <;> exact h
  | call f args => exact Machine.Level.call h hstep
  | result r =>
      cases k with
      | nil =>
          rw [step_result_nil] at hstep
          cases hstep
      | cons fr k =>
          cases r with
          | ok shown =>
              cases hstep
              exact Machine.Level.resume h shown
          | error e =>
              cases hstep
              exact Machine.Level.unwind h e

theorem State.Level.reaches {σ τ : State} (h : σ.Level limit base) (hreach : Reaches limit σ τ) :
    τ.Level limit base := by
  induction hreach with
  | refl => exact h
  | tail _ hstep ih => exact ih.step hstep

/-- The run of `F` from `st` ends with `out`. As many calls are running there as at the start, and
at no point of the run more than `limit`. -/
structure Balanced (limit : Nat) (F : Focus) (st : Store) (out : Except Halt Value × Store) :
    Prop where
  ends : ∃ r, ⟨.result r, [], out.2⟩ ∈ StateTransition.eval (step limit) ⟨F, [], st⟩ ∧
    r.map .orNull = out.1
  depth_eq : out.2.depth = st.depth
  depth_le : ∀ σ, Reaches limit ⟨F, [], st⟩ σ → σ.store.depth ≤ limit

theorem Balanced.of_computes {F : Focus} {x : Eval (Option Value)} (h : st.depth ≤ limit)
    (hx : Computes limit st.depth (fun k st => ⟨F, k, st⟩) x) :
    Balanced limit F st ((Value.orNull <$> x) st) := by
  rw [Run.map_apply]
  refine ⟨⟨(x st).1, mem_eval_of_computes hx, rfl⟩, (hx [] st rfl).2, fun σ hreach => ?_⟩
  have hstart : State.Level limit st.depth ⟨F, [], st⟩ := ⟨rfl, h⟩
  exact (hstart.reaches hreach).2

end Machine

theorem Session.depth_run (s : Session) (source : String) :
    (s.run source).2.store.depth = s.store.depth := by
  unfold Session.run
  dsimp only
  split
  · have h := (Effects.of_program s.limit s.root s.store (Parsed.ofText source).program).depth_eq
    rwa [Program.eval_eq_map_shown, Run.map_apply] at h
  · rfl

theorem Session.depth_runAll (s : Session) (sources : List String) :
    (sources.foldl (fun s source => (s.run source).2) s).store.depth = s.store.depth := by
  induction sources generalizing s with
  | nil => rfl
  | cons source sources ih => rw [List.foldl_cons, ih, s.depth_run]

/-- Whatever is evaluated or called, and however it ends, as many calls are running afterwards as
before, and at no point in between more than the limit. So in a session no call is running between
two texts. -/
theorem depth_balanced (limit : Nat) (st : Store) (within : st.depth ≤ limit) :
    (∀ i e, Machine.Balanced limit (.expr i e) st (Expr.eval (Value.apply limit) i e st)) ∧
      (∀ i s, Machine.Balanced limit (.stmt i s) st (Stmt.eval (Value.apply limit) i s st)) ∧
      (∀ i ss, Machine.Balanced limit (.stmts i ss none) st
        (Stmt.evalAll (Value.apply limit) i ss .null st)) ∧
      (∀ i p, (Program.eval limit i p st).2.depth = st.depth) ∧
      (∀ f args, Machine.Balanced limit (.call f args) st ((Value.apply limit f args).eval st)) ∧
      ∀ sources : List String,
        (sources.foldl (fun s source => (s.run source).2) (Session.start limit)).store.depth =
          0 := by
  have hcall := Machine.apply_calls limit st.depth
  refine ⟨fun i e => ?_, fun i s => ?_, fun i ss => ?_, fun i p => ?_, fun f args => ?_, ?_⟩
  · rw [e.eval_eq_map_shown]
    exact .of_computes within (Machine.expr_computes hcall e)
  · rw [s.eval_eq_map_shown]
    exact .of_computes within (Machine.stmt_computes hcall s)
  · rw [Stmt.evalAll_null]
    exact .of_computes within (Machine.stmts_computes hcall ss none)
  · exact (Effects.of_program limit i st p).depth_eq
  · have h := Machine.Balanced.of_computes within (hcall f args)
    rwa [Value.map_orNull_some] at h
  · intro sources
    rw [Session.depth_runAll]
    rfl

/-- In `let f = fn() { f() }; f()` the calls run into the limit, and none is left behind. -/
theorem depth_balanced_overflow :
    let st := Store.empty.newRoot.2
    let p : Program := ⟨[.bind "f" (.function [] [.expr (.call (.ident "f") [])]),
      .expr (.call (.ident "f") [])]⟩
    st.depth ≤ 2 ∧ (p.eval 2 0 st).1 = .error (.stackOverflow 2) ∧
      (p.eval 2 0 st).2.depth = st.depth := by
  intro st p
  exact ⟨by decide, rfl, (depth_balanced 2 st (by decide)).2.2.2.1 0 p⟩

end Sprig
