import Mathlib.Logic.Relation
import Sprig.Proofs.Evaluation.Identity

/-!
Three ways to compare values.

`Value.same` is identity, `Value.equal` looks into strings and arrays, and `==` is in between: it
looks into strings and goes by identity otherwise. Each of the last two compares one aspect of the
values, so both are equivalence relations, on arrays nested to any depth. That identity implies the
others is no matter of their definitions: it holds because an identity belongs to one object.
-/

namespace Sprig

namespace Value

/-- The answer of `==`. -/
def equals : Value → Value → Bool
  | str _ a, str _ b => a == b
  | a, b => a.same b

/-- What `==` sees of a value: the text of a string, and only the identity of other objects. -/
def face : Value → Value
  | str _ s => str 0 s
  | array id _ => array id []
  | closure id _ => closure id default
  | int n => int n
  | bool b => bool b
  | null => null
  | builtin b => builtin b

mutual

/-- What equality of contents sees of a value: no identities but those of closures. -/
def contents : Value → Value
  | str _ s => str 0 s
  | array _ items => array 0 (contentsAll items)
  | closure id _ => closure id default
  | int n => int n
  | bool b => bool b
  | null => null
  | builtin b => builtin b
termination_by structural v => v

def contentsAll : List Value → List Value
  | [] => []
  | v :: vs => v.contents :: contentsAll vs
termination_by structural vs => vs

end

theorem equals_iff_face {a b : Value} : a.equals b = true ↔ a.face = b.face := by
  cases a <;> cases b <;> simp [equals, same, face]

mutual

theorem equal_iff_contents : ∀ {a b : Value}, a.equal b = true ↔ a.contents = b.contents
  | .array _ as, b => by cases b <;> simp [equal, contents, equalAll_iff_contents]
  | .int _, b | .str _ _, b | .bool _, b | .null, b | .closure _ _, b | .builtin _, b => by
      cases b <;> simp [equal, contents]

theorem equalAll_iff_contents :
    ∀ {as bs : List Value}, equalAll as bs = true ↔ contentsAll as = contentsAll bs
  | [], bs => by cases bs <;> simp [equalAll, contentsAll]
  | a :: as, bs => by
      cases bs <;> simp [equalAll, contentsAll, equal_iff_contents, equalAll_iff_contents]

end

theorem equals_equivalence : Equivalence fun a b : Value => a.equals b = true := by
  simp only [equals_iff_face]
  exact eq_equivalence.comap face

theorem equal_equivalence : Equivalence fun a b : Value => a.equal b = true := by
  simp only [equal_iff_contents]
  exact eq_equivalence.comap contents

variable {objects : List Value} {a b : Value}

theorem Listed.eq_of_same (ha : a.Listed objects) (hb : b.Listed objects)
    (h : a.same b = true) : a = b := by
  revert h
  fun_cases same a b with
  | case1 m n | case3 m n | case7 m n => simp
  | case2 i _ j _ | case5 i _ j _ | case6 i _ j _ =>
      intro h
      obtain rfl : i = j := eq_of_beq h
      exact ha.eq hb rfl rfl
  | case4 => exact fun _ => rfl
  | case8 => exact nofun

theorem Listed.equals_of_same (ha : a.Listed objects) (hb : b.Listed objects)
    (h : a.same b = true) : a.equals b = true := by
  rw [ha.eq_of_same hb h]
  exact equals_equivalence.refl b

theorem Listed.equal_of_equals (ha : a.Listed objects) (hb : b.Listed objects)
    (h : a.equals b = true) : a.equal b = true := by
  revert h
  fun_cases equals a b with
  | case1 _ s _ t => exact id
  | case2 =>
      intro h
      rw [ha.eq_of_same hb h]
      exact equal_equivalence.refl b

end Value

theorem BinaryOp.apply_eq (a b : Value) (st : Store) :
    BinaryOp.eq.apply a b st = (.ok (.bool (a.equals b)), st) := by
  cases a <;> cases b <;> rfl

theorem BinaryOp.apply_notEq (a b : Value) (st : Store) :
    BinaryOp.notEq.apply a b st = (.ok (.bool !a.equals b), st) := by
  cases a <;> cases b <;> rfl

/-- How the comparisons of values are related. On any two values, in any store, `==` and `!=` give
opposite answers and change nothing, and `==` is an equivalence relation, as is equality of
contents. Whatever a host has done before, and at any point of what it is doing: of two values that
it has or that the run works with, `==` holds if they are identical, and their contents are equal if
`==` holds. -/
theorem equality_finer {h : Host} (reached : h.Reached) {σ : Machine.State}
    (running : h.Running σ) :
    (∀ a b st, BinaryOp.eq.apply a b st = (.ok (.bool (a.equals b)), st) ∧
        BinaryOp.notEq.apply a b st = (.ok (.bool !a.equals b), st)) ∧
      (Equivalence fun a b : Value => a.equals b = true) ∧
      (∀ a b, (h.during σ).Has a → (h.during σ).Has b →
        (a.same b = true → a.equals b = true) ∧ (a.equals b = true → a.equal b = true)) ∧
      Equivalence fun a b : Value => a.equal b = true := by
  obtain ⟨R, hR⟩ := reached.registered
  obtain ⟨R', hduring⟩ := hR.during (hR.running running)
  refine ⟨fun a b st => ⟨BinaryOp.apply_eq a b st, BinaryOp.apply_notEq a b st⟩,
    Value.equals_equivalence, fun a b ha hb => ?_, Value.equal_equivalence⟩
  have ha' := hduring.has ha
  have hb' := hduring.has hb
  exact ⟨ha'.equals_of_same hb', ha'.equal_of_equals hb'⟩

/-- After `let x = ["a"]; x` the host has the array that `x` is bound to. In `x == ["a"]` it comes
to be compared with a second array. The two strings are equal to `==`, the two arrays are not. -/
theorem equality_finer_compared :
    let p : Program := ⟨[.bind "x" (.array [.str "a"]), .expr (.ident "x")]⟩
    let q : Program := ⟨[.expr (.binary .eq (.ident "x") (.array [.str "a"]))]⟩
    let root : Host := { Host.start with store := Host.start.store.newRoot.2 }
    let h := root.after (p.eval 5 0 root.store)
    let x := Value.array 1 [.str 0 "a"]
    let y := Value.array 3 [.str 2 "a"]
    let σ : Machine.State := ⟨.result (.ok (some y)), [.right .eq x, .statement 0 []],
      { h.store with nextObject := 4 }⟩
    h.Reached ∧ Machine.Reaches 5 ⟨.stmts 0 q.statements none, [], h.store⟩ σ ∧ h.Running σ ∧
      x ∈ h.values ∧ x.same x = true ∧ x.equals x = true ∧
      (Value.str 0 "a").equals (.str 2 "a") = true ∧ (Value.str 0 "a").equal (.str 2 "a") = true ∧
      x.equals y = false ∧ x.equal y = true := by
  intro p q root h x y σ
  have reached : h.Reached :=
    .tail (.single (.newRoot Host.start)) (.eval root 5 (by decide) p)
  -- ten steps lead to the comparison, the last of them makes the second array
  have hσ : Machine.Reaches 5 ⟨.stmts 0 q.statements none, [], h.store⟩ σ :=
    .head rfl <| .head rfl <| .head rfl <| .head rfl <| .head rfl <| .head rfl <| .head rfl <|
      .head rfl <| .head rfl <| .head rfl .refl
  have running : h.Running σ := .eval 5 (by decide) q hσ
  have hx : (h.during σ).Has x := .held (List.mem_cons_of_mem y List.mem_cons_self)
  have hy : (h.during σ).Has y := .held List.mem_cons_self
  have hstr : (h.during σ).Has (.str 0 "a") := .item hx List.mem_cons_self
  have hstr' : (h.during σ).Has (.str 2 "a") := .item hy List.mem_cons_self
  obtain ⟨-, -, hfiner, -⟩ := equality_finer reached running
  exact ⟨reached, hσ, running, List.mem_cons_self, rfl, (hfiner x x hx hx).1 rfl, rfl,
    (hfiner _ _ hstr hstr').2 rfl, rfl, rfl⟩

end Sprig
