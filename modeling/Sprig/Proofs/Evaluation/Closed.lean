import Sprig.Proofs.Evaluation.Agreement
import Sprig.Proofs.Evaluation.Locality

/-!
Nothing refers to what was never made.

A store is closed when each scope stands directly inside an earlier one, or inside of none, and the
values bound in its scopes mention only objects and scopes that it has made. Evaluation keeps a
store closed and yields values of the same kind. This is one more pairing of evaluations: of each
with itself, where objects and scopes stand for themselves as soon as they are made.
-/

namespace Sprig

/-- How many objects and scopes have been made. -/
structure Extent where
  objects : Nat
  scopes : Nat

structure Extent.Grows (w w' : Extent) : Prop where
  objects : w.objects ≤ w'.objects
  scopes : w.scopes ≤ w'.scopes

theorem Extent.Grows.refl (w : Extent) : w.Grows w := ⟨Nat.le_refl _, Nat.le_refl _⟩

theorem Extent.Grows.trans {w w' w'' : Extent} (h : w.Grows w') (h' : w'.Grows w'') :
    w.Grows w'' :=
  ⟨Nat.le_trans h.objects h'.objects, Nat.le_trans h.scopes h'.scopes⟩

def Store.extent (st : Store) : Extent := ⟨st.nextObject, st.scopes.size⟩

namespace Value

mutual

/-- The identities in a value, those inside of arrays included. -/
def objects : Value → List ObjectId
  | str id _ => [id]
  | array id items => id :: objectsAll items
  | closure id _ => [id]
  | int _ | bool _ | null | builtin _ => []
termination_by structural v => v

def objectsAll : List Value → List ObjectId
  | [] => []
  | v :: vs => v.objects ++ objectsAll vs
termination_by structural vs => vs

end

mutual

/-- The scopes of the closures in a value, those inside of arrays included. -/
def captured : Value → List ScopeId
  | array _ items => capturedAll items
  | closure _ code => [code.scope]
  | int _ | str _ _ | bool _ | null | builtin _ => []
termination_by structural v => v

def capturedAll : List Value → List ScopeId
  | [] => []
  | v :: vs => v.captured ++ capturedAll vs
termination_by structural vs => vs

end

theorem objectsAll_eq (vs : List Value) : objectsAll vs = vs.flatMap objects := by
  induction vs with
  | nil => rfl
  | cons v vs ih => rw [objectsAll, ih, List.flatMap_cons]

theorem capturedAll_eq (vs : List Value) : capturedAll vs = vs.flatMap captured := by
  induction vs with
  | nil => rfl
  | cons v vs ih => rw [capturedAll, ih, List.flatMap_cons]

/-- All objects and scopes that the value mentions are among those that have been made. -/
structure Within (w : Extent) (v : Value) : Prop where
  objects_lt : ∀ i ∈ v.objects, i < w.objects
  captured_lt : ∀ i ∈ v.captured, i < w.scopes

namespace Within

variable {w w' : Extent} {v : Value} {vs : List Value} {id : ObjectId}

theorem mono (hw : w.Grows w') (h : v.Within w) : v.Within w' :=
  ⟨fun i hi => Nat.lt_of_lt_of_le (h.objects_lt i hi) hw.objects,
    fun i hi => Nat.lt_of_lt_of_le (h.captured_lt i hi) hw.scopes⟩

theorem int (n : Int64) : (Value.int n).Within w := ⟨nofun, nofun⟩

theorem bool (b : Bool) : (Value.bool b).Within w := ⟨nofun, nofun⟩

theorem null : Value.null.Within w := ⟨nofun, nofun⟩

theorem builtin (b : Builtin) : (Value.builtin b).Within w := ⟨nofun, nofun⟩

theorem str_iff {s : String} : (Value.str id s).Within w ↔ id < w.objects :=
  ⟨fun h => h.objects_lt id (List.mem_singleton_self id),
    fun h => ⟨fun _ hi => List.mem_singleton.mp hi ▸ h, nofun⟩⟩

theorem closure_iff {code : Closure} :
    (Value.closure id code).Within w ↔ id < w.objects ∧ code.scope < w.scopes :=
  ⟨fun h => ⟨h.objects_lt id (List.mem_singleton_self id),
      h.captured_lt code.scope (List.mem_singleton_self code.scope)⟩,
    fun h => ⟨fun _ hi => List.mem_singleton.mp hi ▸ h.1,
      fun _ hi => List.mem_singleton.mp hi ▸ h.2⟩⟩

theorem array_iff : (Value.array id vs).Within w ↔ id < w.objects ∧ ∀ v ∈ vs, v.Within w := by
  constructor
  · rintro ⟨hobjects, hcaptured⟩
    rw [objects, objectsAll_eq] at hobjects
    rw [captured, capturedAll_eq] at hcaptured
    refine ⟨hobjects id List.mem_cons_self, fun v hv => ⟨fun i hi => ?_, fun i hi => ?_⟩⟩
    · exact hobjects i (List.mem_cons_of_mem _ (List.mem_flatMap_of_mem hv hi))
    · exact hcaptured i (List.mem_flatMap_of_mem hv hi)
  · rintro ⟨hid, hvs⟩
    constructor
    · rw [objects, objectsAll_eq]
      refine List.forall_mem_cons.mpr ⟨hid, fun i hi => ?_⟩
      obtain ⟨v, hv, hi⟩ := List.mem_flatMap.mp hi
      exact (hvs v hv).objects_lt i hi
    · rw [captured, capturedAll_eq]
      intro i hi
      obtain ⟨v, hv, hi⟩ := List.mem_flatMap.mp hi
      exact (hvs v hv).captured_lt i hi

end Within

end Value

/-- Scopes stand inside earlier ones, and what is bound in them was made before. -/
structure Store.Closed (st : Store) : Prop where
  nested : ∀ i, (st.scope i).outer = [] ∨ ∃ p < i, (st.scope i).outer = st.chain p
  bound : ∀ i, ∀ b ∈ (st.scope i).bindings, b.2.Within st.extent

theorem Bindings.mem_of_get? {bs : Bindings} {name : String} {v : Value}
    (h : bs.get? name = some v) : (name, v) ∈ bs := by
  induction bs with
  | nil => cases h
  | cons b bs ih =>
      rw [get?] at h
      split at h
      · next hb =>
          cases h
          exact hb ▸ List.mem_cons_self
      · exact List.mem_cons_of_mem b (ih h)

theorem Bindings.mem_set {bs : Bindings} {name : String} {v : Value} {b : String × Value}
    (h : b ∈ bs.set name v) : b = (name, v) ∨ b ∈ bs := by
  induction bs with
  | nil => exact .inl (List.mem_singleton.mp h)
  | cons c bs ih =>
      rw [set] at h
      split at h
      · exact (List.mem_cons.mp h).imp_right (List.mem_cons_of_mem c)
      · obtain rfl | h := List.mem_cons.mp h
        · exact .inr List.mem_cons_self
        · exact (ih h).imp_right (List.mem_cons_of_mem c)

namespace Store

variable {st : Store} {i : ScopeId}

theorem scope_newRoot (st : Store) (j : ScopeId) : st.newRoot.2.scope j = st.scope j := by
  by_cases hj : j < st.scopes.size
  · simp [newRoot, scope, hj, Nat.lt_succ_of_lt hj, Array.getElem_push_lt]
  · rw [scope_of_size_le (Nat.le_of_not_lt hj), newRoot, scope, Array.getD_eq_getD_getElem?,
      Array.getElem?_push]
    split <;> simp [hj]

theorem scope_newInner (st : Store) (i j : ScopeId) :
    (st.newInner i).2.scope j = if j = st.scopes.size then ⟨st.chain i, []⟩ else st.scope j := by
  split
  · next hj => rw [hj]; exact st.scope_newInner_self i
  · next hj =>
      by_cases hlt : j < st.scopes.size
      · exact scope_newInner_of_lt hlt
      · have hle : (st.newInner i).2.scopes.size ≤ j := by
          rw [newInner, Array.size_push]
          exact Nat.lt_of_le_of_ne (Nat.le_of_not_lt hlt) (Ne.symm hj)
        rw [scope_of_size_le hle, scope_of_size_le (Nat.le_of_not_lt hlt)]

theorem extent_define (st : Store) (i : ScopeId) (name : String) (v : Value) :
    (st.define i name v).extent = st.extent := by
  rw [extent, size_define]
  rfl

theorem grows_newObject (st : Store) : st.extent.Grows st.newObject.2.extent :=
  ⟨Nat.le_succ _, Nat.le_refl _⟩

theorem grows_newRoot (st : Store) : st.extent.Grows st.newRoot.2.extent :=
  ⟨Nat.le_refl _, by simp [extent, newRoot]⟩

theorem grows_newInner (st : Store) (i : ScopeId) : st.extent.Grows (st.newInner i).2.extent :=
  ⟨Nat.le_refl _, by simp [extent, newInner]⟩

namespace Closed

theorem outer_lt (h : st.Closed) : ∀ j ∈ (st.scope i).outer, j < i := by
  induction i using Nat.strongRecOn with
  | ind i ih =>
      obtain hroot | ⟨p, hp, hinner⟩ := h.nested i
      · rw [hroot]
        exact nofun
      · rw [hinner]
        exact List.forall_mem_cons.mpr ⟨hp, fun j hj => Nat.lt_trans (ih p hp j hj) hp⟩

theorem get? (h : st.Closed) {name : String} {v : Value} (hv : st.get? i name = some v) :
    v.Within st.extent := by
  obtain ⟨j, -, hj⟩ := List.exists_of_findSome?_eq_some hv
  exact h.bound j _ (Bindings.mem_of_get? hj)

theorem define (h : st.Closed) {v : Value} (hv : v.Within st.extent) (i : ScopeId)
    (name : String) : (st.define i name v).Closed := by
  have houter : ∀ j, ((st.define i name v).scope j).outer = (st.scope j).outer := by
    intro j
    rw [scope_define]
    split <;> rfl
  constructor
  · intro j
    simp only [chain, houter]
    exact h.nested j
  · intro j b hb
    rw [extent_define]
    rw [scope_define] at hb
    split at hb
    · obtain rfl | hb := Bindings.mem_set hb
      · exact hv
      · exact h.bound j b hb
    · exact h.bound j b hb

theorem newObject (h : st.Closed) : st.newObject.2.Closed where
  nested := h.nested
  bound j b hb := (h.bound j b hb).mono st.grows_newObject

theorem newRoot (h : st.Closed) : st.newRoot.2.Closed := by
  constructor
  · intro j
    simp only [chain, scope_newRoot]
    exact h.nested j
  · intro j b hb
    rw [scope_newRoot] at hb
    exact (h.bound j b hb).mono st.grows_newRoot

theorem newInner (h : st.Closed) (hi : i < st.scopes.size) : (st.newInner i).2.Closed := by
  have hchain : ∀ p < st.scopes.size, (st.newInner i).2.chain p = st.chain p := by
    intro p hp
    rw [chain, chain, scope_newInner_of_lt hp]
  constructor
  · intro j
    rw [scope_newInner]
    split
    · next hj => exact .inr ⟨i, hj ▸ hi, (hchain i hi).symm⟩
    · by_cases hlt : j < st.scopes.size
      · exact (h.nested j).imp_right fun ⟨p, hp, hinner⟩ =>
          ⟨p, hp, hinner.trans (hchain p (Nat.lt_trans hp hlt)).symm⟩
      · exact .inl (by rw [scope_of_size_le (Nat.le_of_not_lt hlt)])
  · intro j b hb
    rw [scope_newInner] at hb
    split at hb
    · cases hb
    · exact (h.bound j b hb).mono (st.grows_newInner i)

end Closed

end Store

namespace Matching

variable {M : Matching} {w : M.World}

mutual

/-- A value stands for itself if all that it mentions does. -/
theorem same_self : ∀ {v : Value}, (∀ i ∈ v.objects, M.object w i i) →
    (∀ k ∈ v.captured, M.scope w k k) → M.Same w v v
  | .int n, _, _ => .int n
  | .str id s, ho, _ => .str (ho id (List.mem_singleton_self id)) s
  | .bool b, _, _ => .bool b
  | .null, _, _ => .null
  | .array id _, ho, hc =>
      .array (ho id List.mem_cons_self)
        (same_selfAll (fun i hi => ho i (List.mem_cons_of_mem id hi)) hc)
  | .closure id ⟨params, body, k⟩, ho, hc =>
      .closure (ho id (List.mem_singleton_self id)) (hc k (List.mem_singleton_self k)) params body
  | .builtin b, _, _ => .builtin b

theorem same_selfAll : ∀ {vs : List Value}, (∀ i ∈ Value.objectsAll vs, M.object w i i) →
    (∀ k ∈ Value.capturedAll vs, M.scope w k k) → M.SameAll w vs vs
  | [], _, _ => .nil
  | _ :: _, ho, hc =>
      .cons
        (same_self (fun i hi => ho i (List.mem_append_left _ hi))
          fun k hk => hc k (List.mem_append_left _ hk))
        (same_selfAll (fun i hi => ho i (List.mem_append_right _ hi))
          fun k hk => hc k (List.mem_append_right _ hk))

end

theorem sameAll_of_forall {vs : List Value} (h : ∀ v ∈ vs, M.Same w v v) : M.SameAll w vs vs := by
  induction vs with
  | nil => exact .nil
  | cons v vs ih =>
      obtain ⟨hv, hvs⟩ := List.forall_mem_cons.mp h
      exact .cons hv (ih hvs)

end Matching

/-- Objects and scopes stand for themselves once they have been made. -/
def Matching.made : Matching where
  World := Extent
  Grows := Extent.Grows
  object w i j := i = j ∧ i < w.objects
  scope w i j := i = j ∧ i < w.scopes
  grows_refl := .refl
  grows_trans := .trans
  object_mono hw h := ⟨h.1, Nat.lt_of_lt_of_le h.2 hw.objects⟩
  scope_mono hw h := ⟨h.1, Nat.lt_of_lt_of_le h.2 hw.scopes⟩
  object_iff hi hj := by rw [hi.1, hj.1]

namespace Matching

variable {w : Extent}

theorem made_refl {v : Value} (h : v.Within w) : made.Same w v v :=
  same_self (fun i hi => ⟨rfl, h.objects_lt i hi⟩) fun k hk => ⟨rfl, h.captured_lt k hk⟩

mutual

theorem eq_of_made : ∀ {v v' : Value}, made.Same w v v' → v = v' ∧ v.Within w
  | _, _, .int n => ⟨rfl, .int n⟩
  | _, _, .str h _ => by
      obtain ⟨rfl, hid⟩ := h
      exact ⟨rfl, Value.Within.str_iff.mpr hid⟩
  | _, _, .bool b => ⟨rfl, .bool b⟩
  | _, _, .null => ⟨rfl, .null⟩
  | _, _, .array h hvs => by
      obtain ⟨rfl, hid⟩ := h
      obtain ⟨rfl, hall⟩ := eq_of_madeAll hvs
      exact ⟨rfl, Value.Within.array_iff.mpr ⟨hid, hall⟩⟩
  | _, _, .closure h hs _ _ => by
      obtain ⟨rfl, hid⟩ := h
      obtain ⟨rfl, hscope⟩ := hs
      exact ⟨rfl, Value.Within.closure_iff.mpr ⟨hid, hscope⟩⟩
  | _, _, .builtin b => ⟨rfl, .builtin b⟩

theorem eq_of_madeAll : ∀ {vs vs' : List Value}, made.SameAll w vs vs' →
    vs = vs' ∧ ∀ v ∈ vs, v.Within w
  | _, _, .nil => ⟨rfl, nofun⟩
  | _, _, .cons hv hvs => by
      obtain ⟨rfl, hwithin⟩ := eq_of_made hv
      obtain ⟨rfl, hall⟩ := eq_of_madeAll hvs
      exact ⟨rfl, List.forall_mem_cons.mpr ⟨hwithin, hall⟩⟩

end

end Matching

/-- An evaluation in a closed store, paired with itself. -/
def Pairing.closed : Pairing where
  toMatching := .made
  store w st st' := st = st' ∧ st.Closed ∧ st.extent = w
  stops _ := True
  escapes _ := False
  stops_of_ordinary _ := trivial
  depth_eq h := by rw [h.1]
  setDepth d h := ⟨by rw [h.1], ⟨h.2.1.nested, h.2.1.bound⟩, h.2.2⟩
  write s h := ⟨by rw [h.1], ⟨h.2.1.nested, h.2.1.bound⟩, h.2.2⟩
  get? {w st st' i i'} name h hi := by
    obtain ⟨rfl, hclosed, rfl⟩ := h
    obtain ⟨rfl, -⟩ := hi
    cases hv : st.get? i name with
    | none => exact .none
    | some v => exact .some (Matching.made_refl (hclosed.get? hv))
  define {w st st' i i' v v'} name h hi hv := by
    obtain ⟨rfl, hclosed, rfl⟩ := h
    obtain ⟨rfl, -⟩ := hi
    obtain ⟨rfl, hwithin⟩ := Matching.eq_of_made hv
    exact ⟨rfl, hclosed.define hwithin i name, st.extent_define i name v⟩
  newObject {w st st'} h := by
    obtain ⟨rfl, hclosed, rfl⟩ := h
    exact ⟨st.newObject.2.extent, st.grows_newObject, ⟨rfl, Nat.lt_succ_self _⟩, rfl,
      hclosed.newObject, rfl⟩
  newInner {w st st' i i'} h hi := by
    obtain ⟨rfl, hclosed, rfl⟩ := h
    obtain ⟨rfl, hi⟩ := hi
    refine ⟨(st.newInner i).2.extent, st.grows_newInner i, ⟨rfl, ?_⟩, rfl, hclosed.newInner hi, rfl⟩
    simp [Store.newInner, Store.extent]

/-- Where a run from `st` may end: in a closed store, with a value of that store if with any. -/
structure Store.Leads {ε : Type} (st : Store) (out : Except ε Value × Store) : Prop where
  closed : out.2.Closed
  grows : st.extent.Grows out.2.extent
  value : ∀ v, out.1 = .ok v → v.Within out.2.extent

theorem Store.Leads.of_meets {d : Nat} {st : Store} {x y : Except Halt Value × Store}
    (h : Pairing.closed.Meets d st.extent Pairing.closed.Same x y) :
    st.Leads (Halt.settle x.1, x.2) := by
  cases h with
  | value hr hv =>
      obtain ⟨hgrows, ⟨-, hclosed, rfl⟩, -⟩ := hr
      exact ⟨hclosed, hgrows, fun v h => by cases h; exact (Matching.eq_of_made hv).2⟩
  | fault hr _ =>
      obtain ⟨hgrows, ⟨-, hclosed, rfl⟩, -⟩ := hr
      exact ⟨hclosed, hgrows, fun v h => by cases h⟩
  | returned hr hv =>
      obtain ⟨hgrows, ⟨-, hclosed, rfl⟩, -⟩ := hr
      exact ⟨hclosed, hgrows, fun v h => by cases h; exact (Matching.eq_of_made hv).2⟩
  | escaped h => exact h.elim

theorem Pairing.closed_calls (limit d : Nat) :
    Pairing.closed.Calls d (Value.apply limit) (Value.apply limit) :=
  Pairing.apply_paired (Nat.le_refl limit) (.inr ⟨trivial, rfl⟩)

namespace Store.Closed

variable {st : Store}

theorem apply (h : st.Closed) (limit : Nat) {f : Value} {args : List Value}
    (hf : f.Within st.extent) (hargs : ∀ v ∈ args, v.Within st.extent) :
    st.Leads (Value.apply limit f args st) := by
  have hsame := Matching.sameAll_of_forall fun v hv => Matching.made_refl (hargs v hv)
  have hleads := Store.Leads.of_meets (Pairing.closed_calls limit st.depth (Matching.made_refl hf)
    hsame st st ⟨rfl, h, rfl⟩ rfl)
  rw [Step.eval_apply] at hleads
  generalize Value.apply limit f args st = out at hleads ⊢
  obtain ⟨_ | _, _⟩ := out <;> exact hleads

theorem eval (h : st.Closed) (limit : Nat) {i : ScopeId} (hi : i < st.scopes.size) (p : Program) :
    st.Leads (p.eval limit i st) := by
  rw [p.eval_eq_settle]
  exact .of_meets (Pairing.stmts_runs (Pairing.closed_calls limit st.depth) p.statements ⟨rfl, hi⟩
    .null st st ⟨rfl, h, rfl⟩ rfl)

end Store.Closed

end Sprig
