import Sprig.Proofs.Evaluation.Adequacy
import Sprig.Proofs.Evaluation.Host

/-!
An identity belongs to one object.

Objects never change, and each is made under a number of its own. So all that were made so far can
be listed in the order of their identities, and whatever turns up in a scope, on the stack of a run
or in the hands of a host is what the list has under its identity. The store keeps no such list. It
is there only in the proofs, where it grows by one entry with each object that is made.
-/

namespace Sprig

/-- The identity of an object; other values have none. -/
def Value.object? : Value → Option ObjectId
  | str id _ | array id _ | closure id _ => some id
  | int _ | bool _ | null | builtin _ => none

/-- If the value is an object, it is the one that the list has under its identity. -/
def Value.Listed (objects : List Value) (v : Value) : Prop :=
  ∀ id ∈ v.object?, objects[id]? = some v

/-- All the objects made so far, in the order of their identities. What an array holds was made
before the array. -/
structure Register where
  objects : List Value
  items : ∀ id items, .array id items ∈ objects → ∀ v ∈ items, v.Listed objects

namespace Value.Listed

variable {objects objects' : List Value} {v : Value}

theorem of_object?_eq_none (h : v.object? = none) : v.Listed objects := by
  intro id hid
  rw [h] at hid
  cases hid

theorem null : Value.null.Listed objects := of_object?_eq_none rfl

theorem mono (hv : v.Listed objects) (h : objects <+: objects') : v.Listed objects' := by
  obtain ⟨more, rfl⟩ := h
  intro id hid
  obtain ⟨hlt, _⟩ := List.getElem?_eq_some_iff.mp (hv id hid)
  rw [List.getElem?_append_left hlt]
  exact hv id hid

theorem eq {w : Value} {id : ObjectId} (hv : v.Listed objects) (hw : w.Listed objects)
    (hid : v.object? = some id) (hid' : w.object? = some id) : v = w :=
  Option.some.inj ((hv id hid).symm.trans (hw id hid'))

end Value.Listed

namespace Register

variable {R R' R'' : Register}

/-- Entries are added at the end, and none is changed. -/
def Grows (R R' : Register) : Prop := R.objects <+: R'.objects

theorem Grows.refl (R : Register) : R.Grows R := List.prefix_rfl

theorem Grows.trans (h : R.Grows R') (h' : R'.Grows R'') : R.Grows R'' := List.IsPrefix.trans h h'

theorem listed_of_mem {id : ObjectId} {items : List Value} {v : Value}
    (h : (Value.array id items).Listed R.objects) (hv : v ∈ items) : v.Listed R.objects :=
  R.items id items (List.mem_of_getElem? (h id rfl)) v hv

/-- The register with one more object. -/
def add (R : Register) (v : Value)
    (hv : ∀ id items, v = .array id items → ∀ w ∈ items, w.Listed R.objects) : Register where
  objects := R.objects ++ [v]
  items id items hmem w hw := by
    refine Value.Listed.mono ?_ (List.prefix_append _ _)
    obtain hmem | hmem := List.mem_append.mp hmem
    · exact R.items id items hmem w hw
    · exact hv id items (List.mem_singleton.mp hmem).symm w hw

end Register

/-- The register is that of the store: it has an entry for each identity that was given out, and
lists what is bound in the scopes. -/
structure Store.Registered (R : Register) (st : Store) : Prop where
  length_eq : R.objects.length = st.nextObject
  bound : ∀ i, ∀ b ∈ (st.scope i).bindings, b.2.Listed R.objects

namespace Store.Registered

variable {R : Register} {st : Store}

theorem get? (h : st.Registered R) {i : ScopeId} {name : String} {v : Value}
    (hv : st.get? i name = some v) : v.Listed R.objects := by
  obtain ⟨j, -, hj⟩ := List.exists_of_findSome?_eq_some hv
  exact h.bound j _ (Bindings.mem_of_get? hj)

theorem define (h : st.Registered R) {v : Value} (hv : v.Listed R.objects) (i : ScopeId)
    (name : String) : (st.define i name v).Registered R := by
  refine ⟨h.length_eq, fun j b hb => ?_⟩
  rw [scope_define] at hb
  split at hb
  · obtain rfl | hb := Bindings.mem_set hb
    · exact hv
    · exact h.bound j b hb
  · exact h.bound j b hb

theorem defineAll (h : st.Registered R) (i : ScopeId) {bs : List (String × Value)}
    (hbs : ∀ b ∈ bs, b.2.Listed R.objects) : (st.defineAll i bs).Registered R := by
  induction bs generalizing st with
  | nil => exact h
  | cons b bs ih =>
      obtain ⟨hb, hbs⟩ := List.forall_mem_cons.mp hbs
      exact ih (h.define hb i b.1) hbs

theorem newRoot (h : st.Registered R) : st.newRoot.2.Registered R := by
  refine ⟨h.length_eq, fun j b hb => ?_⟩
  rw [scope_newRoot] at hb
  exact h.bound j b hb

theorem newInner (h : st.Registered R) (i : ScopeId) : (st.newInner i).2.Registered R := by
  refine ⟨h.length_eq, fun j b hb => ?_⟩
  rw [scope_newInner] at hb
  split at hb
  · cases hb
  · exact h.bound j b hb

theorem setDepth (h : st.Registered R) (d : Nat) : { st with depth := d }.Registered R :=
  ⟨h.length_eq, h.bound⟩

theorem print (h : st.Registered R) (v : Value) : (st.print v).Registered R :=
  ⟨h.length_eq, h.bound⟩

theorem enter (h : st.Registered R) (code : Closure) {args : List Value}
    (hargs : ∀ v ∈ args, v.Listed R.objects) : (code.enter args st).2.Registered R :=
  ((h.setDepth _).newInner code.scope).defineAll _ fun b hb => hargs b.2 (List.of_mem_zip hb).2

end Store.Registered

/-- Where a run may end that started with the register `R`. -/
def Register.Leads {ε : Type} (R : Register) (out : Except ε Value × Store) : Prop :=
  ∃ R', R.Grows R' ∧ out.2.Registered R' ∧ ∀ v, out.1 = .ok v → v.Listed R'.objects

/-- An object that is made gets the next entry. -/
theorem Store.Registered.made {ε : Type} {R : Register} {st : Store} (h : st.Registered R)
    {v : Value} (hid : v.object? = some st.nextObject)
    (hv : ∀ id items, v = .array id items → ∀ w ∈ items, w.Listed R.objects) :
    R.Leads ((.ok v, st.newObject.2) : Except ε Value × Store) := by
  have hgrows : R.Grows (R.add v hv) := List.prefix_append _ _
  refine ⟨R.add v hv, hgrows, ⟨?_, fun i b hb => (h.bound i b hb).mono hgrows⟩, ?_⟩
  · change (R.objects ++ [v]).length = st.nextObject + 1
    rw [List.length_append, h.length_eq]
    rfl
  · rintro w hw id hid'
    cases hw
    rw [hid] at hid'
    cases hid'
    change (R.objects ++ [v])[st.nextObject]? = some v
    rw [← h.length_eq, List.getElem?_concat_length]

/-- The computation takes a store of the register to one that the register may lead to. -/
def Run.Registers {ε : Type} (R : Register) (x : Run ε Value) : Prop :=
  ∀ st, st.Registered R → R.Leads (x st)

namespace Run.Registers

variable {ε : Type} {R : Register}

theorem of_result {r : Except ε Value} (hr : ∀ v, r = .ok v → v.Listed R.objects) :
    Run.Registers R fun st => (r, st) :=
  fun _ hst => ⟨R, .refl R, hst, hr⟩

theorem pure {v : Value} (hv : v.Listed R.objects) : (pure v : Run ε Value).Registers R :=
  of_result fun _ h => by cases h; exact hv

theorem plain {v : Value} (hv : v.object? = none) : (Pure.pure v : Run ε Value).Registers R :=
  pure (.of_object?_eq_none hv)

theorem stop (e : ε) : (Run.stop e : Run ε Value).Registers R :=
  of_result fun _ h => by cases h

theorem newString (s : String) :
    (Run.step fun st => st.newString s : Run ε Value).Registers R :=
  fun _ hst => hst.made rfl fun _ _ h => by cases h

theorem newArray {vs : List Value} (hvs : ∀ v ∈ vs, v.Listed R.objects) :
    (Run.step fun st => st.newArray vs : Run ε Value).Registers R :=
  fun _ hst => hst.made rfl fun _ _ h => by cases h; exact hvs

theorem newClosure (code : Closure) :
    (Run.step fun st => st.newClosure code : Run ε Value).Registers R :=
  fun _ hst => hst.made rfl fun _ _ h => by cases h

end Run.Registers

open Run

section

variable {R : Register}

theorem resolve_registers (i : ScopeId) (name : String) : (resolve i name).Registers R := by
  intro st hst
  refine ⟨R, .refl R, ?_, ?_⟩
  · fun_cases resolve i name st <;> exact hst
  · fun_cases resolve i name st with
    | case1 v hv =>
        intro w hw
        cases hw
        exact hst.get? hv
    | case2 _ b _ =>
        intro w hw
        cases hw
        exact .of_object?_eq_none rfl
    | case3 => exact nofun

theorem UnaryOp.apply_registers (op : UnaryOp) (v : Value) : (op.apply v).Registers R := by
  fun_cases UnaryOp.apply op v with
  | case1 | case2 => exact .plain rfl
  | case3 | case4 => exact .stop _

theorem BinaryOp.object?_applyInt {op : BinaryOp} {m n : Int64} {v : Value}
    (h : op.applyInt m n = .ok v) : v.object? = none := by
  have hexactly : ∀ r, op.exactly m n r = .ok v → v.object? = none := by
    rintro (_ | k) h <;> cases h
    rfl
  cases op with
  | add | sub | mul => exact hexactly _ h
  | div =>
      rw [applyInt] at h
      split at h
      · cases h
      · exact hexactly _ h
  | lt | gt | eq | notEq =>
      cases h
      rfl

theorem BinaryOp.object?_applyOther {op : BinaryOp} {a b v : Value}
    (h : op.applyOther a b = .ok v) : v.object? = none := by
  cases op with
  | eq | notEq =>
      cases h
      rfl
  | add | sub | mul | div | lt | gt =>
      simp only [applyOther] at h
      split at h <;> cases h

theorem BinaryOp.apply_registers (op : BinaryOp) (a b : Value) : (op.apply a b).Registers R := by
  fun_cases BinaryOp.apply op a b with
  | case1 m n => exact .of_result fun _ h => .of_object?_eq_none (object?_applyInt h)
  | case2 _ s _ t =>
      cases op with
      | add => exact .newString (s ++ t)
      | eq | notEq => exact .plain rfl
      | sub | mul | div | lt | gt => exact .stop _
  | case3 => exact .of_result fun _ h => .of_object?_eq_none (object?_applyOther h)

/-- One of the items, or null. -/
theorem Register.item_registers {id : ObjectId} {items : List Value} {item : Option Value}
    (ha : (Value.array id items).Listed R.objects) (hitem : ∀ v ∈ item, v ∈ items) :
    (pure (item.getD .null) : Step Value).Registers R := by
  cases item with
  | none => exact .plain rfl
  | some v => exact .pure (listed_of_mem ha (hitem v rfl))

theorem Value.index_registers {a : Value} (ha : a.Listed R.objects) (b : Value) :
    (a.index b).Registers R := by
  fun_cases Value.index a b with
  | case1 id items i n =>
      rw [List.getD_eq_getElem?_getD]
      exact Register.item_registers ha fun _ => List.mem_of_getElem?
  | case2 => exact .plain rfl
  | case3 => exact .stop _

namespace Builtin

theorem runPuts_registers (vs : List Value) : (runPuts vs).Registers R := by
  induction vs with
  | nil => exact .plain rfl
  | cons v vs ih => exact fun st hst => ih (st.print v) (hst.print v)

theorem runHelp_registers (vs : List Value) : (runHelp vs).Registers R := by
  fun_cases runHelp vs with
  | case1 | case2 => exact .newString _
  | case3 | case4 => exact .stop _

theorem run_registers (b : Builtin) {args : List Value} (hargs : ∀ v ∈ args, v.Listed R.objects) :
    (b.run args).Registers R := by
  fun_cases Builtin.run b args with
  | case1 v =>
      cases v with
      | str _ _ | array _ _ => exact .plain rfl
      | _ => exact .stop _
  | case2 v =>
      cases v with
      | array _ _ =>
          exact Register.item_registers (hargs _ List.mem_cons_self) fun _ => List.mem_of_head?
      | _ => exact .stop _
  | case3 v =>
      cases v with
      | array _ _ =>
          exact Register.item_registers (hargs _ List.mem_cons_self) fun _ => List.mem_of_getLast?
      | _ => exact .stop _
  | case4 a v =>
      cases a with
      | array _ items =>
          obtain ⟨ha, hv⟩ := List.forall_mem_cons.mp hargs
          exact .newArray (List.forall_mem_append.mpr ⟨fun _ => Register.listed_of_mem ha, hv⟩)
      | _ => exact .stop _
  | case5 v => exact .newString v.type.name
  | case6 => exact runPuts_registers args
  | case7 => exact runHelp_registers args
  | case8 => exact .stop _

end Builtin

end

namespace Machine

def Use.values : Use → List Value
  | .array => []
  | .arguments f => [f]

/-- The values that a frame keeps for later. -/
def Frame.values : Frame → List Value
  | .item _ use done _ => use.values ++ done
  | .right _ v | .position v => [v]
  | .operand _ | .left _ _ _ | .test _ _ _ | .callee _ _ | .subject _ _ | .bound _ _ | .returned
  | .statement _ _ | .body => []

/-- The values at hand. Nothing counts as null, and a return as the value it carries. -/
def Focus.values : Focus → List Value
  | .items _ use done _ => use.values ++ done
  | .stmts _ _ last => [.orNull last]
  | .call f args => f :: args
  | .result r => (Halt.settle (r.map .orNull)).toOption.toList
  | .expr _ _ | .stmt _ _ => []

/-- The values of a run, those in the scopes apart. -/
def State.values (σ : State) : List Value := σ.focus.values ++ σ.stack.flatMap Frame.values

/-- There is one register for the store, for the values of the run and for all that `R` lists. -/
def State.Fits (R : Register) (σ : State) : Prop :=
  ∃ R', R.Grows R' ∧ σ.store.Registered R' ∧ ∀ v ∈ σ.values, v.Listed R'.objects

namespace State.Fits

variable {R : Register} {limit : Nat} {k : List Frame} {st : Store} {σ τ : State}

/-- A step that hands on the values it finds. -/
theorem keep (h : σ.Fits R) (hstore : τ.store = σ.store) (hvalues : τ.values ⊆ .null :: σ.values) :
    τ.Fits R := by
  obtain ⟨R', hgrows, hst, hvs⟩ := h
  refine ⟨R', hgrows, hstore ▸ hst, fun v hv => ?_⟩
  obtain rfl | hv := List.mem_cons.mp (hvalues hv)
  · exact .null
  · exact hvs v hv

/-- A step that runs `x` and leaves the frames in `k`. -/
theorem ofRun (h : σ.Fits R) {x : Step Value} (hk : k.flatMap Frame.values ⊆ σ.values)
    (hx : ∀ R' : Register, (∀ v ∈ σ.values, v.Listed R'.objects) → x.Registers R') :
    (ofRun (some <$> x.eval) k σ.store).Fits R := by
  obtain ⟨R', hgrows, hst, hvs⟩ := h
  obtain ⟨R'', hgrows', hst', hv⟩ := hx R' hvs σ.store hst
  rw [Machine.ofRun, Run.map_apply, Step.eval_apply]
  refine ⟨R'', hgrows.trans hgrows', hst', List.forall_mem_append.mpr ⟨?_, fun v hv => ?_⟩⟩
  · generalize x σ.store = out at hv
    obtain ⟨_ | v, _⟩ := out
    · exact List.forall_mem_nil _
    · exact List.forall_mem_singleton.mpr (hv v rfl)
  · exact (hvs v (hk hv)).mono hgrows'

theorem expr {i : ScopeId} {e : Expr} (h : Fits R ⟨.expr i e, k, st⟩) :
    (Machine.expr i k st e).Fits R := by
  have hk : k.flatMap Frame.values ⊆ State.values ⟨.expr i e, k, st⟩ := List.Subset.refl _
  cases e with
  | ident name => exact h.ofRun hk fun _ _ => resolve_registers i name
  | int _ => exact h.ofRun hk fun _ _ => .plain rfl
  | str s => exact h.ofRun hk fun _ _ => .newString s
  | bool _ => exact h.ofRun hk fun _ _ => .plain rfl
  | function params body => exact h.ofRun hk fun _ _ => .newClosure ⟨params, body, i⟩
  | array _ | unary _ _ | binary _ _ _ | cond _ _ _ | call _ _ | index _ _ =>
      exact h.keep rfl (List.subset_cons_of_subset _ hk)

theorem finish {i : ScopeId} {use : Use} {done : List Value}
    (h : Fits R ⟨.items i use done [], k, st⟩) : (use.finish done k st).Fits R := by
  cases use with
  | array =>
      refine h.ofRun (List.subset_append_right _ _) fun _ hvs => .newArray fun v hv => ?_
      exact hvs v (List.mem_append_left _ hv)
  | arguments f => exact h.keep rfl (List.subset_cons_self _ _)

theorem call {f : Value} {args : List Value} (h : Fits R ⟨.call f args, k, st⟩)
    (hstep : Machine.call limit args k st f = some τ) : τ.Fits R := by
  have hk : k.flatMap Frame.values ⊆ State.values ⟨.call f args, k, st⟩ :=
    List.subset_append_right _ _
  have hstop (e : Fault) : (Machine.ofRun (Run.stop (.fault e)) k st).Fits R :=
    h.ofRun hk fun _ _ => .stop e
  cases f with
  | closure id code =>
      rw [Machine.call] at hstep
      split at hstep
      · split at hstep
        · cases hstep
          obtain ⟨R', hgrows, hst, hvs⟩ := h
          refine ⟨R', hgrows, hst.enter code fun v hv => ?_, ?_⟩
          · exact hvs v (List.mem_cons_of_mem _ (List.mem_append_left _ hv))
          · exact List.forall_mem_cons.mpr ⟨.null, fun v hv => hvs v (hk hv)⟩
        · cases hstep
          exact hstop _
      · cases hstep
        exact hstop _
  | builtin b =>
      rw [Machine.call, b.invoke_eq] at hstep
      cases hstep
      refine h.ofRun hk fun _ hvs => b.run_registers fun v hv => ?_
      exact hvs v (List.mem_cons_of_mem _ (List.mem_append_left _ hv))
  | int _ | str _ _ | bool _ | null | array _ _ =>
      cases hstep
      exact hstop _

theorem resume {shown : Option Value} {fr : Frame}
    (h : Fits R ⟨.result (.ok shown), fr :: k, st⟩) : (Machine.resume shown k st fr).Fits R := by
  have hk : k.flatMap Frame.values ⊆ State.values ⟨.result (.ok shown), fr :: k, st⟩ := by
    simp [State.values]
  cases fr with
  | operand op => exact h.ofRun hk fun _ _ => op.apply_registers _
  | right op a => exact h.ofRun hk fun _ _ => op.apply_registers _ _
  | position a =>
      refine h.ofRun hk fun _ hvs => Value.index_registers (hvs a ?_) _
      simp [State.values, Frame.values]
  | test i yes no =>
      have hnull : .null :: k.flatMap Frame.values ⊆
          .null :: State.values ⟨.result (.ok shown), .test i yes no :: k, st⟩ :=
        List.cons_subset_cons _ hk
      simp only [Machine.resume]
      split
      · exact h.keep rfl hnull
      · cases no <;> exact h.keep rfl hnull
  | bound i name =>
      obtain ⟨R', hgrows, hst, hvs⟩ := h
      refine ⟨R', hgrows, hst.define (hvs _ List.mem_cons_self) i name, ?_⟩
      exact List.forall_mem_cons.mpr ⟨.null, fun v hv => hvs v (hk hv)⟩
  | body =>
      obtain ⟨R', hgrows, hst, hvs⟩ := h
      exact ⟨R', hgrows, hst.setDepth _, hvs⟩
  | item i use done rest =>
      refine h.keep rfl fun v hv => ?_
      change v ∈ use.values ++ (done ++ [.orNull shown]) ++ k.flatMap Frame.values at hv
      change v ∈ .null :: .orNull shown :: (use.values ++ done ++ k.flatMap Frame.values)
      grind
  | left _ _ _ | callee _ _ | subject _ _ | returned | statement _ _ =>
      exact h.keep rfl (List.subset_cons_self _ _)

theorem unwind {e : Halt} {fr : Frame} (h : Fits R ⟨.result (.error e), fr :: k, st⟩) :
    (Machine.unwind e k st fr).Fits R := by
  have hsub : (Focus.result (.error e)).values ++ k.flatMap Frame.values ⊆
      State.values ⟨.result (.error e), fr :: k, st⟩ := by
    simp [State.values]
  cases fr with
  | body =>
      obtain ⟨R', hgrows, hst, hvs⟩ := h
      refine ⟨R', hgrows, hst.setDepth _, fun v hv => hvs v (hsub ?_)⟩
      cases e <;> exact hv
  | _ => exact h.keep rfl (List.subset_cons_of_subset _ hsub)

theorem step (h : σ.Fits R) (hstep : Machine.step limit σ = some τ) : τ.Fits R := by
  obtain ⟨F, k, st⟩ := σ
  cases F with
  | expr i e =>
      cases hstep
      exact h.expr
  | items i use done rest =>
      cases rest with
      | nil =>
          cases hstep
          exact h.finish
      | cons e rest =>
          cases hstep
          exact h.keep rfl (List.subset_cons_self _ _)
  | stmt i s =>
      cases hstep
      cases s with
      | block body => exact h.keep rfl (List.Subset.refl _)
      | bind _ _ | ret _ | expr _ => exact h.keep rfl (List.subset_cons_self _ _)
  | stmts i ss last =>
      cases ss with
      | nil =>
          cases hstep
          exact h.keep rfl (List.subset_cons_self _ _)
      | cons s ss =>
          cases hstep
          exact h.keep rfl (List.subset_cons_of_subset _ (List.subset_cons_self _ _))
  | call f args => exact h.call hstep
  | result r =>
      cases k with
      | nil =>
          rw [step_result_nil] at hstep
          cases hstep
      | cons fr k =>
          cases r with
          | ok shown =>
              cases hstep
              exact h.resume
          | error e =>
              cases hstep
              exact h.unwind

theorem reaches (h : σ.Fits R) (hreach : Reaches limit σ τ) : τ.Fits R := by
  induction hreach with
  | refl => exact h
  | tail _ hstep ih => exact ih.step hstep

/-- What a run ends with. -/
theorem leads {r : Except Halt (Option Value)} (h : Fits R ⟨.result r, [], st⟩) :
    R.Leads (Halt.settle (r.map .orNull), st) := by
  obtain ⟨R', hgrows, hst, hvs⟩ := h
  refine ⟨R', hgrows, hst, fun v hv => hvs v ?_⟩
  change Halt.settle (r.map .orNull) = .ok v at hv
  change v ∈ (Halt.settle (r.map .orNull)).toOption.toList ++ []
  rw [hv]
  exact List.mem_cons_self

end State.Fits

end Machine

namespace Host

/-- The states of the machine while a host does one thing. The evaluations and calls it can make go
through the states of their runs; all else is done at once. -/
inductive Running (h : Host) : Machine.State → Prop
  | idle : h.Running ⟨.result (.ok none), [], h.store⟩
  | eval (limit : Nat) {i : ScopeId} (hi : i < h.store.scopes.size) (p : Program)
      {σ : Machine.State}
      (hσ : Machine.Reaches limit ⟨.stmts i p.statements none, [], h.store⟩ σ) : h.Running σ
  | apply (limit : Nat) {f : Value} {args : List Value} (hf : h.Has f)
      (hargs : ∀ v ∈ args, h.Has v) {σ : Machine.State}
      (hσ : Machine.Reaches limit ⟨.call f args, [], h.store⟩ σ) : h.Running σ

/-- A host in the middle of a run, with the values of the run next to its own. -/
def during (h : Host) (σ : Machine.State) : Host := ⟨σ.store, σ.values ++ h.values⟩

structure Registered (R : Register) (h : Host) : Prop where
  store : h.store.Registered R
  values : ∀ v ∈ h.values, v.Listed R.objects

namespace Registered

variable {R : Register} {h : Host}

theorem has (hr : h.Registered R) {v : Value} (hv : h.Has v) : v.Listed R.objects := by
  induction hv with
  | held hv => exact hr.values _ hv
  | int _ | bool _ | null | builtin _ => exact .of_object?_eq_none rfl
  | bound hv => exact hr.store.get? hv
  | item _ hv ih => exact Register.listed_of_mem ih hv

theorem during (hr : h.Registered R) {σ : Machine.State} (hσ : σ.Fits R) :
    ∃ R', (h.during σ).Registered R' := by
  obtain ⟨R', hgrows, hst, hvs⟩ := hσ
  refine ⟨R', hst, List.forall_mem_append.mpr ⟨hvs, fun v hv => ?_⟩⟩
  exact (hr.values v hv).mono hgrows

theorem after (hr : h.Registered R) {out : Except Fault Value × Store} (hout : R.Leads out) :
    ∃ R', (h.after out).Registered R' := by
  obtain ⟨R', hgrows, hst, hvs⟩ := hout
  refine ⟨R', hst, List.forall_mem_append.mpr ⟨fun v hv => ?_, fun v hv => ?_⟩⟩
  · obtain ⟨_ | _, _⟩ := out
    · cases hv
    · cases List.mem_singleton.mp hv
      exact hvs _ rfl
  · exact (hr.values v hv).mono hgrows

theorem eval_fits (hr : h.Registered R) (i : ScopeId) (p : Program) :
    Machine.State.Fits R ⟨.stmts i p.statements none, [], h.store⟩ :=
  ⟨R, .refl R, hr.store, List.forall_mem_singleton.mpr .null⟩

theorem apply_fits (hr : h.Registered R) {f : Value} {args : List Value} (hf : h.Has f)
    (hargs : ∀ v ∈ args, h.Has v) : Machine.State.Fits R ⟨.call f args, [], h.store⟩ := by
  refine ⟨R, .refl R, hr.store, ?_⟩
  rw [Machine.State.values, List.flatMap_nil, List.append_nil]
  exact List.forall_mem_cons.mpr ⟨hr.has hf, fun v hv => hr.has (hargs v hv)⟩

theorem running (hr : h.Registered R) {σ : Machine.State} (hσ : h.Running σ) : σ.Fits R := by
  cases hσ with
  | idle => exact ⟨R, .refl R, hr.store, List.forall_mem_singleton.mpr .null⟩
  | eval limit _ p hσ => exact (hr.eval_fits _ p).reaches hσ
  | apply limit hf hargs hσ => exact (hr.apply_fits hf hargs).reaches hσ

theorem act (hr : h.Registered R) {h' : Host} (ha : Act h h') : ∃ R', h'.Registered R' := by
  cases ha with
  | newRoot => exact ⟨R, hr.store.newRoot, hr.values⟩
  | newInner _ => exact ⟨R, hr.store.newInner _, hr.values⟩
  | clone => exact ⟨R, hr⟩
  | define _ name hv => exact ⟨R, hr.store.define (hr.has hv) _ name, hr.values⟩
  | newString s => exact hr.after (Run.Registers.newString s h.store hr.store)
  | newArray hvs =>
      exact hr.after (Run.Registers.newArray (fun v hv => hr.has (hvs v hv)) h.store hr.store)
  | newClosure _ => exact hr.after (Run.Registers.newClosure _ h.store hr.store)
  | @eval limit i _ p =>
      have hcomputes := Machine.stmts_computes (i := i) (Machine.apply_calls limit h.store.depth)
        p.statements none
      have hleads := ((hr.eval_fits i p).reaches (hcomputes [] h.store rfl).1).leads
      rw [p.eval_eq_settle, Stmt.evalAll_null, Run.map_apply]
      exact hr.after hleads
  | @apply limit f args hf hargs =>
      have hcomputes := Machine.apply_calls limit h.store.depth f args
      have hleads := ((hr.apply_fits hf hargs).reaches (hcomputes [] h.store rfl).1).leads
      rw [Run.map_apply, Step.eval_apply] at hleads
      generalize Value.apply limit f args h.store = out at hleads ⊢
      obtain ⟨_ | _, _⟩ := out <;> exact hr.after hleads

end Registered

theorem Reached.registered {h : Host} (hr : h.Reached) : ∃ R, h.Registered R := by
  induction hr with
  | refl => exact ⟨⟨[], nofun⟩, ⟨rfl, fun _ => nofun⟩, nofun⟩
  | tail _ ha ih =>
      obtain ⟨R, hr⟩ := ih
      exact hr.act ha

end Host

end Sprig
