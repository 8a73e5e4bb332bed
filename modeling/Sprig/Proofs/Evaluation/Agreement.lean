import Sprig.Proofs.Evaluation.Effects

/-!
Two evaluations side by side.

A `Matching` says which objects and scopes of two evaluations stand for each other. It may grow
while they run, so what it says is relative to a world, and values stand for each other when they
differ only in such objects and scopes. A `Pairing` adds which stores stand for each other, by what
evaluation can do to a store: make objects and scopes, look up and define names, print, and count
calls. Whatever pairing is chosen, evaluations of the same tree in paired stores stay paired. Both
yield values that stand for each other, or both stop in the same way. The first one may be given up
at a fault that `escapes`; nothing is then said about the second.

The tree is followed once, for all pairings. As elsewhere, evaluations start with `d` running calls,
and the calls they make are paired for that number.
-/

namespace Sprig

structure Matching where
  World : Type
  Grows : World → World → Prop
  object : World → ObjectId → ObjectId → Prop
  scope : World → ScopeId → ScopeId → Prop
  grows_refl (w : World) : Grows w w
  grows_trans {w w' w'' : World} : Grows w w' → Grows w' w'' → Grows w w''
  object_mono {w w' : World} {i j : ObjectId} : Grows w w' → object w i j → object w' i j
  scope_mono {w w' : World} {i j : ScopeId} : Grows w w' → scope w i j → scope w' i j
  object_iff {w : World} {i i' j j' : ObjectId} :
    object w i i' → object w j j' → (i = j ↔ i' = j')

mutual

/-- The values differ only in objects and scopes that stand for each other. -/
inductive Matching.Same (M : Matching) (w : M.World) : Value → Value → Prop
  | int (n : Int64) : M.Same w (.int n) (.int n)
  | str {i j : ObjectId} (h : M.object w i j) (s : String) : M.Same w (.str i s) (.str j s)
  | bool (b : Bool) : M.Same w (.bool b) (.bool b)
  | null : M.Same w .null .null
  | array {i j : ObjectId} {vs vs' : List Value} (h : M.object w i j) (hvs : M.SameAll w vs vs') :
      M.Same w (.array i vs) (.array j vs')
  | closure {i j : ObjectId} {k l : ScopeId} (h : M.object w i j) (hs : M.scope w k l)
      (params : List String) (body : Block) :
      M.Same w (.closure i ⟨params, body, k⟩) (.closure j ⟨params, body, l⟩)
  | builtin (b : Builtin) : M.Same w (.builtin b) (.builtin b)

inductive Matching.SameAll (M : Matching) (w : M.World) : List Value → List Value → Prop
  | nil : M.SameAll w [] []
  | cons {v v' : Value} {vs vs' : List Value} (hv : M.Same w v v') (hvs : M.SameAll w vs vs') :
      M.SameAll w (v :: vs) (v' :: vs')

end

namespace Matching

variable {M : Matching} {w w' : M.World} {v v' a a' b b' : Value} {vs vs' us us' : List Value}

mutual

theorem Same.mono (hw : M.Grows w w') : ∀ {v v' : Value}, M.Same w v v' → M.Same w' v v'
  | _, _, .int n => .int n
  | _, _, .str h s => .str (M.object_mono hw h) s
  | _, _, .bool b => .bool b
  | _, _, .null => .null
  | _, _, .array h hvs => .array (M.object_mono hw h) (SameAll.mono hw hvs)
  | _, _, .closure h hs params body =>
      .closure (M.object_mono hw h) (M.scope_mono hw hs) params body
  | _, _, .builtin b => .builtin b

theorem SameAll.mono (hw : M.Grows w w') :
    ∀ {vs vs' : List Value}, M.SameAll w vs vs' → M.SameAll w' vs vs'
  | _, _, .nil => .nil
  | _, _, .cons hv hvs => .cons (Same.mono hw hv) (SameAll.mono hw hvs)

end

mutual

theorem Same.inspect_eq : ∀ {v v' : Value}, M.Same w v v' → v.inspect = v'.inspect
  | _, _, .int _ | _, _, .str _ _ | _, _, .bool _ | _, _, .null | _, _, .closure _ _ _ _
  | _, _, .builtin _ => rfl
  | _, _, .array _ hvs => by rw [Value.inspect, Value.inspect, SameAll.inspectAll_eq hvs]

theorem SameAll.inspectAll_eq : ∀ {vs vs' : List Value}, M.SameAll w vs vs' →
    Value.inspectAll vs = Value.inspectAll vs'
  | _, _, .nil => rfl
  | _, _, .cons hv hvs => by
      rw [Value.inspectAll, Value.inspectAll, Same.inspect_eq hv, SameAll.inspectAll_eq hvs]

end

theorem Same.display_eq (h : M.Same w v v') : v.display = v'.display := by
  cases h with
  | array ho hvs => exact Same.inspect_eq (.array ho hvs)
  | _ => rfl

theorem Same.isTruthy_eq (h : M.Same w v v') : v.isTruthy = v'.isTruthy := by
  cases h <;> rfl

theorem Same.type_eq (h : M.Same w v v') : v.type = v'.type := by
  cases h <;> rfl

theorem Same.str?_eq (h : M.Same w v v') : v.str? = v'.str? := by
  cases h <;> rfl

/-- Identity does not tell two evaluations apart. -/
theorem Same.same_eq (ha : M.Same w a a') (hb : M.Same w b b') : a.same b = a'.same b' := by
  cases ha <;> cases hb <;> first
    | rfl
    | exact decide_eq_decide.2 (M.object_iff ‹_› ‹_›)

namespace SameAll

theorem length_eq : ∀ {vs vs' : List Value}, M.SameAll w vs vs' → vs.length = vs'.length
  | _, _, .nil => rfl
  | _, _, .cons _ hvs => congrArg (· + 1) hvs.length_eq

theorem append (h : M.SameAll w us us') (h' : M.SameAll w vs vs') :
    M.SameAll w (us ++ vs) (us' ++ vs') := by
  induction us generalizing us' with
  | nil =>
      cases h
      exact h'
  | cons u us ih =>
      cases h with
      | cons hu hus => exact .cons hu (ih hus)

/-- What is taken from a list by its position, where null stands for nothing. -/
theorem getD (h : M.SameAll w vs vs') (n : Nat) :
    M.Same w (vs.getD n .null) (vs'.getD n .null) := by
  induction vs generalizing vs' n with
  | nil =>
      cases h
      exact .null
  | cons v vs ih =>
      cases h with
      | cons hv hvs =>
          cases n with
          | zero => exact hv
          | succ n => exact ih hvs n

end SameAll

end Matching

def Fault.isOverflow : Fault → Bool
  | .stackOverflow _ => true
  | _ => false

/-- Which stores stand for each other, and what is asked at a fault: that both evaluations stop
there, or nothing. Only a call that does not fit may be treated apart. -/
structure Pairing extends Matching where
  store : World → Store → Store → Prop
  stops : Fault → Prop
  escapes : Fault → Prop
  stops_of_ordinary {f : Fault} : f.isOverflow = false → stops f
  depth_eq {w : World} {st st' : Store} : store w st st' → st.depth = st'.depth
  setDepth {w : World} {st st' : Store} (d : Nat) :
    store w st st' → store w { st with depth := d } { st' with depth := d }
  write {w : World} {st st' : Store} (text : String) : store w st st' →
    store w { st with output := st.output ++ text } { st' with output := st'.output ++ text }
  get? {w : World} {st st' : Store} {i i' : ScopeId} (name : String) :
    store w st st' → scope w i i' →
      Option.Rel (toMatching.Same w) (st.get? i name) (st'.get? i' name)
  define {w : World} {st st' : Store} {i i' : ScopeId} {v v' : Value} (name : String) :
    store w st st' → scope w i i' → toMatching.Same w v v' →
      store w (st.define i name v) (st'.define i' name v')
  newObject {w : World} {st st' : Store} : store w st st' →
    ∃ w', Grows w w' ∧ object w' st.newObject.1 st'.newObject.1 ∧
      store w' st.newObject.2 st'.newObject.2
  newInner {w : World} {st st' : Store} {i i' : ScopeId} : store w st st' → scope w i i' →
    ∃ w', Grows w w' ∧ scope w' (st.newInner i).1 (st'.newInner i').1 ∧
      store w' (st.newInner i).2 (st'.newInner i').2

namespace Pairing

variable {P : Pairing} {d : Nat} {w w' w'' : P.World} {st st' : Store} {α β γ δ : Type}

/-- From world `w` two evaluations have come to paired stores, with `d` calls running. -/
structure Reached (P : Pairing) (d : Nat) (w w' : P.World) (st st' : Store) : Prop where
  grows : P.Grows w w'
  store : P.store w' st st'
  depth : st.depth = d

/-- How two evaluations from world `w` have ended. -/
inductive Meets (P : Pairing) (d : Nat) (w : P.World) (A : P.World → α → β → Prop) :
    Except Halt α × Store → Except Halt β × Store → Prop
  | value {w' : P.World} {st st' : Store} {a : α} {b : β} (hr : P.Reached d w w' st st')
      (h : A w' a b) : P.Meets d w A (.ok a, st) (.ok b, st')
  | fault {w' : P.World} {st st' : Store} {f : Fault} (hr : P.Reached d w w' st st')
      (h : P.stops f) : P.Meets d w A (.error (.fault f), st) (.error (.fault f), st')
  | returned {w' : P.World} {st st' : Store} {v v' : Value} (hr : P.Reached d w w' st st')
      (h : P.Same w' v v') : P.Meets d w A (.error (.returned v), st) (.error (.returned v'), st')
  | escaped {st : Store} {f : Fault} {out : Except Halt β × Store} (h : P.escapes f) :
      P.Meets d w A (.error (.fault f), st) out

/-- From all stores paired in `w`, with `d` calls running, `x` and `y` end alike. -/
def Runs (P : Pairing) (d : Nat) (w : P.World) (A : P.World → α → β → Prop) (x : Eval α)
    (y : Eval β) : Prop :=
  ∀ st st', P.store w st st' → st.depth = d → P.Meets d w A (x st) (y st')

theorem Reached.refl (h : P.store w st st') (hd : st.depth = d) : P.Reached d w w st st' :=
  ⟨P.grows_refl w, h, hd⟩

theorem Meets.of_grows {A : P.World → α → β → Prop} (hw : P.Grows w w')
    {x : Except Halt α × Store} {y : Except Halt β × Store} (h : P.Meets d w' A x y) :
    P.Meets d w A x y := by
  cases h with
  | value hr h => exact .value { hr with grows := P.grows_trans hw hr.grows } h
  | fault hr h => exact .fault { hr with grows := P.grows_trans hw hr.grows } h
  | returned hr h => exact .returned { hr with grows := P.grows_trans hw hr.grows } h
  | escaped h => exact .escaped h

namespace Runs

variable {A : P.World → α → β → Prop} {B : P.World → γ → δ → Prop}

theorem pure {a : α} {b : β} (h : A w a b) : P.Runs d w A (pure a) (pure b) :=
  fun _ _ hst hd => .value (.refl hst hd) h

theorem fault {f : Fault} (h : P.stops f) :
    P.Runs d w A (Run.stop (.fault f)) (Run.stop (.fault f)) :=
  fun _ _ hst hd => .fault (.refl hst hd) h

/-- A fault that has nothing to do with the number of calls. -/
theorem ordinary {f : Fault} (h : f.isOverflow = false) :
    P.Runs d w A (Run.stop (.fault f)) (Run.stop (.fault f)) :=
  .fault (P.stops_of_ordinary h)

theorem returned {v v' : Value} (h : P.Same w v v') :
    P.Runs d w A (Run.stop (.returned v)) (Run.stop (.returned v')) :=
  fun _ _ hst hd => .returned (.refl hst hd) h

theorem bind {x : Eval α} {y : Eval β} {f : α → Eval γ} {g : β → Eval δ} (h : P.Runs d w A x y)
    (k : ∀ w' a b, P.Grows w w' → A w' a b → P.Runs d w' B (f a) (g b)) :
    P.Runs d w B (x >>= f) (y >>= g) := by
  intro st st' hst hd
  have hxy := h st st' hst hd
  rw [Run.bind_apply, Run.bind_apply]
  generalize x st = out at hxy ⊢
  generalize y st' = out' at hxy ⊢
  cases hxy with
  | @value w' st st' a b hr h =>
      exact (k w' a b hr.grows h st st' hr.store hr.depth).of_grows hr.grows
  | fault hr h => exact .fault hr h
  | returned hr h => exact .returned hr h
  | escaped h => exact .escaped h

/-- Both make an object. -/
theorem object {f g : ObjectId → Value}
    (h : ∀ w' i j, P.Grows w w' → P.object w' i j → P.Same w' (f i) (g j)) :
    P.Runs d w P.Same (Run.step fun st => (f st.newObject.1, st.newObject.2))
      (Run.step fun st => (g st.newObject.1, st.newObject.2)) := by
  intro st st' hst hd
  obtain ⟨w', hw, ho, hst'⟩ := P.newObject hst
  exact .value ⟨hw, hst', hd⟩ (h w' _ _ hw ho)

theorem newString (s : String) : P.Runs d w P.Same (Run.step fun st => st.newString s)
    (Run.step fun st => st.newString s) :=
  .object fun _ _ _ _ ho => .str ho s

theorem newArray {vs vs' : List Value} (h : P.SameAll w vs vs') :
    P.Runs d w P.Same (Run.step fun st => st.newArray vs) (Run.step fun st => st.newArray vs') :=
  .object fun _ _ _ hw ho => .array ho (h.mono hw)

theorem newClosure {i i' : ScopeId} (h : P.scope w i i') (params : List String) (body : Block) :
    P.Runs d w P.Same (Run.step fun st => st.newClosure ⟨params, body, i⟩)
      (Run.step fun st => st.newClosure ⟨params, body, i'⟩) :=
  .object fun _ _ _ hw ho => .closure ho (P.scope_mono hw h) params body

theorem define {i i' : ScopeId} {v v' : Value} (hi : P.scope w i i') (hv : P.Same w v v')
    (name : String) : P.Runs d w P.Same (Run.step fun st => (.null, st.define i name v))
      (Run.step fun st => (.null, st.define i' name v')) :=
  fun _ _ hst hd => .value ⟨P.grows_refl w, P.define name hst hi hv, hd⟩ .null

end Runs

open Matching

variable {i i' : ScopeId} {v v' a a' b b' : Value} {vs vs' : List Value}

theorem resolve_runs (hi : P.scope w i i') (name : String) :
    P.Runs d w P.Same (resolve i name).eval (resolve i' name).eval := by
  intro st st' hst hd
  have h := P.get? name hst hi
  simp only [Step.eval, Run.lift, resolve]
  generalize st.get? i name = r at h ⊢
  generalize st'.get? i' name = r' at h ⊢
  cases h with
  | some h => exact .value (.refl hst hd) h
  | none =>
      cases Builtin.ofName? name with
      | some b => exact .value (.refl hst hd) (.builtin b)
      | none => exact .fault (.refl hst hd) (P.stops_of_ordinary rfl)

theorem unary_runs (op : UnaryOp) (h : P.Same w v v') :
    P.Runs d w P.Same (op.apply v).eval (op.apply v').eval := by
  cases op with
  | not =>
      rw [UnaryOp.apply, UnaryOp.apply, h.isTruthy_eq]
      exact .pure (.bool _)
  | negate =>
      cases h with
      | int n =>
          simp only [UnaryOp.apply]
          cases Integer.neg? n with
          | some m => exact .pure (.int m)
          | none => exact .ordinary rfl
      | _ => exact .ordinary rfl

theorem applyInt_runs (op : BinaryOp) (m n : Int64) :
    P.Runs d w P.Same (Step.eval fun st => (op.applyInt m n, st))
      (Step.eval fun st => (op.applyInt m n, st)) := by
  have hexact : ∀ r : Option Int64, P.Runs d w P.Same (Step.eval fun st => (op.exactly m n r, st))
      (Step.eval fun st => (op.exactly m n r, st)) := by
    intro r
    cases r with
    | some k => exact .pure (.int k)
    | none => exact .ordinary rfl
  cases op with
  | add | sub | mul => exact hexact _
  | div =>
      simp only [BinaryOp.applyInt]
      split
      · exact .ordinary rfl
      · exact hexact _
  | lt | gt | eq | notEq => exact .pure (.bool _)

theorem applyString_runs (op : BinaryOp) (s t : String) :
    P.Runs d w P.Same (op.applyString s t).eval (op.applyString s t).eval := by
  cases op with
  | add => exact .newString (s ++ t)
  | eq | notEq => exact .pure (.bool _)
  | sub | mul | div | lt | gt => exact .ordinary rfl

theorem applyOther_eq (op : BinaryOp) (ha : P.Same w a a') (hb : P.Same w b b') :
    op.applyOther a b = op.applyOther a' b' := by
  cases op <;> simp only [BinaryOp.applyOther, ha.same_eq hb, ha.type_eq, hb.type_eq]

theorem applyOther_runs (op : BinaryOp) (ha : P.Same w a a') (hb : P.Same w b b') :
    P.Runs d w P.Same (Step.eval fun st => (op.applyOther a b, st))
      (Step.eval fun st => (op.applyOther a' b', st)) := by
  rw [applyOther_eq op ha hb]
  cases op with
  | eq | notEq => exact .pure (.bool _)
  | add | sub | mul | div | lt | gt =>
      simp only [BinaryOp.applyOther]
      split <;> exact .ordinary rfl

theorem binary_runs (op : BinaryOp) (ha : P.Same w a a') (hb : P.Same w b b') :
    P.Runs d w P.Same (op.apply a b).eval (op.apply a' b').eval := by
  have hother := applyOther_runs (d := d) op ha hb
  cases ha with
  | int m =>
      cases hb with
      | int n => exact applyInt_runs op m n
      | _ => exact hother
  | str _ s =>
      cases hb with
      | str _ t => exact applyString_runs op s t
      | _ => exact hother
  | _ => exact hother

theorem index_runs (ha : P.Same w a a') (hb : P.Same w b b') :
    P.Runs d w P.Same (a.index b).eval (a'.index b').eval := by
  cases ha with
  | array _ hvs =>
      cases hb with
      | int n =>
          simp only [Value.index]
          cases n.toInt with
          | ofNat n => exact .pure (hvs.getD n)
          | negSucc n => exact .pure .null
      | _ => exact .ordinary rfl
  | _ => cases hb <;> exact .ordinary rfl

theorem runFirst_runs (h : P.Same w v v') :
    P.Runs d w P.Same (Builtin.runFirst v).eval (Builtin.runFirst v').eval := by
  cases h with
  | array _ hvs =>
      refine .pure ?_
      rw [List.head?_eq_getElem?, List.head?_eq_getElem?, ← List.getD_eq_getElem?_getD,
        ← List.getD_eq_getElem?_getD]
      exact hvs.getD 0
  | _ => exact .ordinary rfl

theorem runLast_runs (h : P.Same w v v') :
    P.Runs d w P.Same (Builtin.runLast v).eval (Builtin.runLast v').eval := by
  cases h with
  | array _ hvs =>
      refine .pure ?_
      rw [List.getLast?_eq_getElem?, List.getLast?_eq_getElem?, ← List.getD_eq_getElem?_getD,
        ← List.getD_eq_getElem?_getD, hvs.length_eq]
      exact hvs.getD _
  | _ => exact .ordinary rfl

theorem runLen_runs (h : P.Same w v v') :
    P.Runs d w P.Same (Builtin.runLen v).eval (Builtin.runLen v').eval := by
  cases h with
  | str _ s => exact .pure (.int _)
  | array _ hvs =>
      simp only [Builtin.runLen, hvs.length_eq]
      exact .pure (.int _)
  | _ => exact .ordinary rfl

theorem typeOf_runs (h : P.Same w v v') :
    P.Runs d w P.Same (Run.step fun st => st.newString v.type.name)
      (Run.step fun st => st.newString v'.type.name) := by
  rw [h.type_eq]
  exact .newString _

theorem runPush_runs (ha : P.Same w a a') (hv : P.Same w v v') :
    P.Runs d w P.Same (Builtin.runPush a v).eval (Builtin.runPush a' v').eval := by
  cases ha with
  | array _ hvs => exact .newArray (hvs.append (.cons hv .nil))
  | _ => exact .ordinary rfl

theorem store_print (hst : P.store w st st') (h : P.Same w v v') :
    P.store w (st.print v) (st'.print v') := by
  have hw := P.write (v.display ++ "\n") hst
  rw [← String.append_assoc, ← String.append_assoc, h.display_eq] at hw
  rw [Store.print, Store.print, h.display_eq]
  exact hw

theorem runPuts_runs (h : P.SameAll w vs vs') :
    P.Runs d w P.Same (Builtin.runPuts vs).eval (Builtin.runPuts vs').eval := by
  induction vs generalizing vs' with
  | nil =>
      cases h
      exact .pure .null
  | cons v vs ih =>
      cases h with
      | cons hv hvs => exact fun st st' hst hd => ih hvs _ _ (store_print hst hv) hd

theorem runHelp_runs (h : P.SameAll w vs vs') :
    P.Runs d w P.Same (Builtin.runHelp vs).eval (Builtin.runHelp vs').eval := by
  have hlen := h.length_eq
  cases h with
  | nil => exact .newString _
  | cons hv hvs =>
      cases hvs with
      | nil =>
          simp only [Builtin.runHelp, hv.str?_eq, hv.inspect_eq]
          cases Option.bind _ Builtin.page? with
          | some text => exact .newString _
          | none => exact .ordinary rfl
      | cons hv' hvs =>
          simp only [Builtin.runHelp, hlen]
          exact .ordinary rfl

theorem builtin_runs (f : Builtin) (h : P.SameAll w vs vs') :
    P.Runs d w P.Same (f.run vs).eval (f.run vs').eval := by
  have harity : P.Runs d w P.Same
      (Run.stop (.fault (.arity (f.arity.getD 0) vs.length)))
      (Run.stop (.fault (.arity (f.arity.getD 0) vs'.length))) := by
    rw [h.length_eq]
    exact .ordinary rfl
  cases f with
  | len | first | last | typeOf =>
      cases h with
      | nil => exact harity
      | cons hv hvs =>
          cases hvs with
          | nil => first
            | exact runLen_runs hv
            | exact runFirst_runs hv
            | exact runLast_runs hv
            | exact typeOf_runs hv
          | cons => exact harity
  | push =>
      cases h with
      | nil => exact harity
      | cons ha hvs =>
          cases hvs with
          | nil => exact harity
          | cons hv hvs =>
              cases hvs with
              | nil => exact runPush_runs ha hv
              | cons => exact harity
  | puts => exact runPuts_runs h
  | help => exact runHelp_runs h

/-- Calls of values that stand for each other are paired where `d` calls are running. -/
def Calls (P : Pairing) (d : Nat) (call call' : Applier) : Prop :=
  ∀ {w : P.World} {f f' : Value} {args args' : List Value}, P.Same w f f' →
    P.SameAll w args args' → P.Runs d w P.Same (call f args).eval (call' f' args').eval

variable {call call' : Applier}

mutual

theorem expr_runs (hcall : P.Calls d call call') :
    ∀ (e : Expr) {w : P.World}, P.scope w i i' →
      P.Runs d w P.Same (e.eval call i) (e.eval call' i')
  | .ident name, _, hi => resolve_runs hi name
  | .int n, _, _ => .pure (.int n)
  | .str s, _, _ => .newString s
  | .bool b, _, _ => .pure (.bool b)
  | .array items, _, hi => (items_runs hcall items hi).bind fun _ _ _ _ hvs => .newArray hvs
  | .unary op e, _, hi => (expr_runs hcall e hi).bind fun _ _ _ _ hv => unary_runs op hv
  | .binary op a b, _, hi =>
      (expr_runs hcall a hi).bind fun _ _ _ hw ha =>
        (expr_runs hcall b (P.scope_mono hw hi)).bind fun _ _ _ hw hb =>
          binary_runs op (ha.mono hw) hb
  | .cond test yes none, _, hi => by
      refine (expr_runs hcall test hi).bind fun _ v v' hw hv => ?_
      rw [hv.isTruthy_eq]
      split
      · exact stmts_runs hcall yes (P.scope_mono hw hi) .null
      · exact .pure .null
  | .cond test yes (some no), _, hi => by
      refine (expr_runs hcall test hi).bind fun _ v v' hw hv => ?_
      rw [hv.isTruthy_eq]
      split
      · exact stmts_runs hcall yes (P.scope_mono hw hi) .null
      · exact stmts_runs hcall no (P.scope_mono hw hi) .null
  | .function params body, _, hi => .newClosure hi params body
  | .call callee args, _, hi =>
      (expr_runs hcall callee hi).bind fun _ _ _ hw hf =>
        (items_runs hcall args (P.scope_mono hw hi)).bind fun _ _ _ hw hvs =>
          hcall (hf.mono hw) hvs
  | .index a b, _, hi =>
      (expr_runs hcall a hi).bind fun _ _ _ hw ha =>
        (expr_runs hcall b (P.scope_mono hw hi)).bind fun _ _ _ hw hb =>
          index_runs (ha.mono hw) hb

theorem items_runs (hcall : P.Calls d call call') :
    ∀ (es : List Expr) {w : P.World}, P.scope w i i' →
      P.Runs d w P.SameAll (Expr.evalAll call i es) (Expr.evalAll call' i' es)
  | [], _, _ => .pure .nil
  | e :: es, _, hi =>
      (expr_runs hcall e hi).bind fun _ _ _ hw hv =>
        (items_runs hcall es (P.scope_mono hw hi)).bind fun _ _ _ hw hvs =>
          .pure (.cons (hv.mono hw) hvs)

theorem stmt_runs (hcall : P.Calls d call call') :
    ∀ (s : Stmt) {w : P.World}, P.scope w i i' →
      P.Runs d w P.Same (s.eval call i) (s.eval call' i')
  | .bind name value, _, hi =>
      (expr_runs hcall value hi).bind fun _ _ _ hw hv => .define (P.scope_mono hw hi) hv name
  | .ret value, _, hi => (expr_runs hcall value hi).bind fun _ _ _ _ hv => .returned hv
  | .expr value, _, hi => expr_runs hcall value hi
  | .block body, _, hi => stmts_runs hcall body hi .null

theorem stmts_runs (hcall : P.Calls d call call') :
    ∀ (ss : List Stmt) {w : P.World} {last last' : Value}, P.scope w i i' → P.Same w last last' →
      P.Runs d w P.Same (Stmt.evalAll call i ss last) (Stmt.evalAll call' i' ss last')
  | [], _, _, _, _, hlast => .pure hlast
  | s :: ss, _, _, _, hi, _ =>
      (stmt_runs hcall s hi).bind fun _ _ _ hw hv => stmts_runs hcall ss (P.scope_mono hw hi) hv

end

/-- What two runs show stands for each other. -/
def Shows (P : Pairing) (w : P.World) : Option Value → Option Value → Prop :=
  Option.Rel (P.Same w)

mutual

theorem expr_shows (hcall : P.Calls d call call') :
    ∀ (e : Expr) {w : P.World}, P.scope w i i' →
      P.Runs d w P.Shows (e.shown call i) (e.shown call' i')
  | .cond test yes none, _, hi => by
      refine (expr_runs hcall test hi).bind fun _ v v' hw hv => ?_
      rw [hv.isTruthy_eq]
      split
      · exact stmts_shows hcall yes (P.scope_mono hw hi) .none
      · exact .pure (.some .null)
  | .cond test yes (some no), _, hi => by
      refine (expr_runs hcall test hi).bind fun _ v v' hw hv => ?_
      rw [hv.isTruthy_eq]
      split
      · exact stmts_shows hcall yes (P.scope_mono hw hi) .none
      · exact stmts_shows hcall no (P.scope_mono hw hi) .none
  | .ident _, _, hi | .int _, _, hi | .str _, _, hi | .bool _, _, hi | .array _, _, hi
  | .unary _ _, _, hi | .binary _ _ _, _, hi | .function _ _, _, hi | .call _ _, _, hi
  | .index _ _, _, hi =>
      (expr_runs hcall _ hi).bind fun _ _ _ _ hv => .pure (.some hv)

theorem stmt_shows (hcall : P.Calls d call call') :
    ∀ (s : Stmt) {w : P.World}, P.scope w i i' →
      P.Runs d w P.Shows (s.shown call i) (s.shown call' i')
  | .bind _ _, _, hi => (stmt_runs hcall _ hi).bind fun _ _ _ _ _ => .pure .none
  | .ret _, _, hi => (stmt_runs hcall _ hi).bind fun _ _ _ _ hv => .pure (.some hv)
  | .expr value, _, hi => expr_shows hcall value hi
  | .block body, _, hi => stmts_shows hcall body hi .none

theorem stmts_shows (hcall : P.Calls d call call') :
    ∀ (ss : List Stmt) {w : P.World} {last last' : Option Value}, P.scope w i i' →
      P.Shows w last last' →
        P.Runs d w P.Shows (Stmt.shownAll call i ss last) (Stmt.shownAll call' i' ss last')
  | [], _, _, _, _, hlast => .pure hlast
  | s :: ss, _, _, _, hi, _ =>
      (stmt_shows hcall s hi).bind fun _ _ _ hw hv => stmts_shows hcall ss (P.scope_mono hw hi) hv

end

theorem store_defineAll (hi : P.scope w i i') (params : List String) :
    ∀ {st st' : Store} {args args' : List Value}, P.store w st st' → P.SameAll w args args' →
      P.store w (st.defineAll i (params.zip args)) (st'.defineAll i' (params.zip args')) := by
  induction params with
  | nil => exact fun hst _ => hst
  | cons name params ih =>
      intro st st' args args' hst hargs
      cases hargs with
      | nil => exact hst
      | cons hv hvs => exact ih (P.define name hst hi hv) hvs

theorem enter_reached {args args' : List Value} (params : List String) (body : Block)
    (hst : P.store w st st') (hi : P.scope w i i') (hargs : P.SameAll w args args') :
    ∃ w', P.scope w' ((⟨params, body, i⟩ : Closure).enter args st).1
        ((⟨params, body, i'⟩ : Closure).enter args' st').1 ∧
      P.Reached (st.depth + 1) w w' ((⟨params, body, i⟩ : Closure).enter args st).2
        ((⟨params, body, i'⟩ : Closure).enter args' st').2 := by
  have hentered : P.store w { st with depth := st.depth + 1 }
      { st' with depth := st'.depth + 1 } := by
    rw [← P.depth_eq hst]
    exact P.setDepth _ hst
  obtain ⟨w', hw, hscope, hnew⟩ := P.newInner hentered hi
  exact ⟨w', hscope, hw, store_defineAll hscope params hnew (hargs.mono hw),
    Closure.depth_enter _ _ _⟩

/-- The end of a body is the end of the call, with a return taken for its value. -/
theorem Meets.settle {x y : Except Halt Value × Store} (h : P.Meets (d + 1) w P.Same x y) :
    P.Meets d w P.Same
      ((Halt.settle x.1).mapError .fault, { x.2 with depth := x.2.depth - 1 })
      ((Halt.settle y.1).mapError .fault, { y.2 with depth := y.2.depth - 1 }) := by
  have leave : ∀ {w' st st'}, P.Reached (d + 1) w w' st st' →
      P.Reached d w w' { st with depth := st.depth - 1 } { st' with depth := st'.depth - 1 } := by
    intro w' st st' hr
    refine ⟨hr.grows, ?_, ?_⟩
    · rw [← P.depth_eq hr.store]
      exact P.setDepth _ hr.store
    · change st.depth - 1 = d
      rw [hr.depth, Nat.add_sub_cancel]
  cases h with
  | value hr h => exact .value (leave hr) h
  | fault hr h => exact .fault (leave hr) h
  | returned hr h => exact .value (leave hr) h
  | escaped h => exact .escaped h

theorem body_runs {args args' : List Value} (hcall : P.Calls (d + 1) call call')
    (params : List String) (body : Block) (hi : P.scope w i i') (hargs : P.SameAll w args args') :
    P.Runs d w P.Same (Step.eval ((⟨params, body, i⟩ : Closure).run call args))
      (Step.eval ((⟨params, body, i'⟩ : Closure).run call' args')) := by
  intro st st' hst hd
  obtain ⟨w', hscope, hr⟩ := enter_reached params body hst hi hargs
  rw [hd] at hr
  have hbody := stmts_runs hcall body hscope .null _ _ hr.store hr.depth
  rw [Step.eval_apply, Step.eval_apply]
  exact (hbody.of_grows hr.grows).settle

end Pairing

theorem Value.apply_eval {limit d : Nat} {st : Store} (hd : st.depth = d) (f : Value)
    (args : List Value) :
    (Value.apply limit f args).eval st = (Value.applyWithin limit (limit - d) f args).eval st := by
  rw [Step.eval_apply, Step.eval_apply, Value.apply, hd]

namespace Pairing

variable {P : Pairing} {d : Nat}

/-- Calls are paired when the second one has at least as much room. Where the first one does not
fit, it has to escape, or the second one has the same limit and no more room. -/
theorem applyWithin_paired {limit limit' : Nat} (room : Nat) :
    ∀ (room' d : Nat), room ≤ room' →
      P.escapes (.stackOverflow limit) ∨
        P.stops (.stackOverflow limit) ∧ limit = limit' ∧ room = room' →
      P.Calls d (Value.applyWithin limit room) (Value.applyWithin limit' room') := by
  induction room using Nat.strongRecOn with
  | ind room ih =>
      intro room' d hle hover w f f' args args' hf hargs
      cases hf with
      | builtin b =>
          rw [Value.applyWithin_builtin, Value.applyWithin_builtin]
          exact builtin_runs b hargs
      | @closure _ _ k l _ hs params body =>
          rw [Value.applyWithin_closure, Value.applyWithin_closure, ← hargs.length_eq]
          have harity_eq : Closure.arity ⟨params, body, l⟩ = Closure.arity ⟨params, body, k⟩ := rfl
          by_cases harity : Closure.arity ⟨params, body, k⟩ = args.length
          · rw [if_pos harity, if_pos (harity_eq.trans harity)]
            cases room with
            | zero =>
                obtain hescapes | ⟨hstops, rfl, rfl⟩ := hover
                · exact fun st st' hst hd => .escaped hescapes
                · exact .fault hstops
            | succ less =>
                -- the body is entered by both, with one call less to spare
                obtain ⟨less', rfl⟩ : ∃ k, room' = k + 1 := ⟨room' - 1, by omega⟩
                refine body_runs (ih less (Nat.lt_succ_self _) less' (d + 1) (by omega) ?_)
                  params body hs hargs
                exact hover.imp_right fun ⟨hstops, hlimit, hroom⟩ =>
                  ⟨hstops, hlimit, Nat.succ.inj hroom⟩
          · rw [if_neg harity, harity_eq, if_neg harity]
            exact .ordinary rfl
      | int _ | str _ _ | bool _ | null | array _ _ =>
          cases room <;> cases room' <;> exact .ordinary rfl

theorem apply_paired {limit limit' : Nat} (hle : limit ≤ limit')
    (hover : P.escapes (.stackOverflow limit) ∨ P.stops (.stackOverflow limit) ∧ limit = limit') :
    P.Calls d (Value.apply limit) (Value.apply limit') := by
  intro w f f' args args' hf hargs st st' hst hd
  rw [Value.apply_eval hd, Value.apply_eval ((P.depth_eq hst).symm.trans hd)]
  exact applyWithin_paired (limit - d) (limit' - d) d (Nat.sub_le_sub_right hle d)
    (hover.imp_right fun ⟨hstops, hlimit⟩ => ⟨hstops, hlimit, by rw [hlimit]⟩)
    hf hargs st st' hst hd

end Pairing

end Sprig
