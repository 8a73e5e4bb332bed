import Sprig.Evaluation.Shown

/-!
What a run shows is its value.

Statements are evaluated in two ways: inside of functions for their value, and at the top for what
they have to show. The second way looks into conditionals and blocks on its own. Both do the same to
the store and stop alike, and nothing shown stands for the value null. Whether anything is shown is
decided by the statement in which the run ends.
-/

namespace Sprig

/-- The value of what is shown; nothing counts as null. -/
def Value.orNull (shown : Option Value) : Value := shown.getD .null

theorem Value.map_orNull_some {ε : Type} (x : Run ε Value) : Value.orNull <$> some <$> x = x := by
  rw [Functor.map_map]
  exact id_map' x

mutual

theorem Expr.eval_eq_map_shown (call : Applier) (i : ScopeId) :
    ∀ e : Expr, e.eval call i = Value.orNull <$> e.shown call i
  | .cond test yes none => by
      rw [Expr.eval, Expr.shown, map_bind]
      congr 1
      funext v
      cases v.isTruthy
      · rfl
      · exact Stmt.evalAll_eq_map_shownAll call i yes none
  | .cond test yes (some no) => by
      rw [Expr.eval, Expr.shown, map_bind]
      congr 1
      funext v
      cases v.isTruthy
      · exact Stmt.evalAll_eq_map_shownAll call i no none
      · exact Stmt.evalAll_eq_map_shownAll call i yes none
  | .ident _ | .int _ | .str _ | .bool _ | .array _ | .unary _ _ | .binary _ _ _ | .function _ _
  | .call _ _ | .index _ _ => by
      simp [Expr.shown, Value.orNull]

theorem Stmt.eval_eq_map_shown (call : Applier) (i : ScopeId) :
    ∀ s : Stmt, s.eval call i = Value.orNull <$> s.shown call i
  | .bind name value => by
      rw [Stmt.shown, Stmt.eval, bind_assoc, map_bind]
      rfl
  | .ret value => by simp [Stmt.shown, Value.orNull]
  | .expr value => by
      rw [Stmt.eval, Stmt.shown]
      exact value.eval_eq_map_shown call i
  | .block body => by
      rw [Stmt.eval, Stmt.shown]
      exact Stmt.evalAll_eq_map_shownAll call i body none

theorem Stmt.evalAll_eq_map_shownAll (call : Applier) (i : ScopeId) :
    ∀ (ss : List Stmt) (last : Option Value),
      Stmt.evalAll call i ss (Value.orNull last) = Value.orNull <$> Stmt.shownAll call i ss last
  | [], last => by rw [Stmt.evalAll, Stmt.shownAll, map_pure]
  | s :: ss, last => by
      rw [Stmt.evalAll, Stmt.shownAll, map_bind, s.eval_eq_map_shown call i, bind_map_left]
      congr 1
      funext shown
      exact Stmt.evalAll_eq_map_shownAll call i ss shown

end

theorem Stmt.evalAll_null (call : Applier) (i : ScopeId) (ss : List Stmt) :
    Stmt.evalAll call i ss .null = Value.orNull <$> Stmt.shownAll call i ss none :=
  Stmt.evalAll_eq_map_shownAll call i ss none

theorem Program.eval_eq_map_shown (limit : Nat) (i : ScopeId) (p : Program) :
    p.eval limit i = Value.orNull <$> p.shown limit i := rfl

/-- A program has the value of its statements, where a return is the value it carries. -/
theorem Program.eval_eq_settle (limit : Nat) (i : ScopeId) (p : Program) (st : Store) :
    p.eval limit i st =
      (Halt.settle (Stmt.evalAll (Value.apply limit) i p.statements .null st).1,
        (Stmt.evalAll (Value.apply limit) i p.statements .null st).2) := by
  rw [p.eval_eq_map_shown, Run.map_apply, Program.shown, Stmt.evalAll_null, Run.map_apply]
  rcases Stmt.shownAll (Value.apply limit) i p.statements none st with ⟨(_ | _) | _, _⟩ <;> rfl

mutual

/-- The statement in which a run from `st` ends, looking into blocks and the branch that is taken.
There is none where it ends in an empty list. A conditional without a branch to take, or whose
test stops, is the end itself. -/
def Expr.tail (call : Applier) (i : ScopeId) : Expr → Store → Option Stmt
  | .cond test yes none, st =>
    match test.eval call i st with
    | (.ok v, st') =>
      if v.isTruthy then Stmt.tailAll call i yes st' else some (.expr (.cond test yes none))
    | (.error _, _) => some (.expr (.cond test yes none))
  | .cond test yes (some no), st =>
    match test.eval call i st with
    | (.ok v, st') =>
      if v.isTruthy then Stmt.tailAll call i yes st' else Stmt.tailAll call i no st'
    | (.error _, _) => some (.expr (.cond test yes (some no)))
  | e, _ => some (.expr e)
termination_by structural e => e

def Stmt.tail (call : Applier) (i : ScopeId) : Stmt → Store → Option Stmt
  | .expr value, st => value.tail call i st
  | .block body, st => Stmt.tailAll call i body st
  | s, _ => some s
termination_by structural s => s

def Stmt.tailAll (call : Applier) (i : ScopeId) : List Stmt → Store → Option Stmt
  | [], _ => none
  | [s], st => s.tail call i st
  | s :: t :: ss, st => Stmt.tailAll call i (t :: ss) (s.eval call i st).2
termination_by structural ss => ss

end

/-- A run that ends in a binding or in an empty list has nothing to show. -/
def Stmt.isSilent : Option Stmt → Bool
  | none | some (.bind _ _) => true
  | some _ => false

mutual

theorem Expr.shown_eq_none_iff (call : Applier) (i : ScopeId) :
    ∀ (e : Expr) {shown : Option Value} {st st' : Store}, e.shown call i st = (.ok shown, st') →
      (shown = none ↔ Stmt.isSilent (e.tail call i st))
  | .cond test yes none, shown, st, st', h => by
      rw [Expr.shown, Run.bind_eq_ok] at h
      obtain ⟨v, st₁, ht, h⟩ := h
      simp only [Expr.tail, ht]
      by_cases hv : v.isTruthy
      · rw [if_pos hv] at h ⊢
        exact Stmt.shownAll_eq_none_iff call i yes h
      · rw [if_neg hv] at h ⊢
        cases h
        simp [Stmt.isSilent]
  | .cond test yes (some no), shown, st, st', h => by
      rw [Expr.shown, Run.bind_eq_ok] at h
      obtain ⟨v, st₁, ht, h⟩ := h
      simp only [Expr.tail, ht]
      by_cases hv : v.isTruthy
      · rw [if_pos hv] at h ⊢
        exact Stmt.shownAll_eq_none_iff call i yes h
      · rw [if_neg hv] at h ⊢
        exact Stmt.shownAll_eq_none_iff call i no h
  | .ident _, _, _, _, h | .int _, _, _, _, h | .str _, _, _, _, h | .bool _, _, _, _, h
  | .array _, _, _, _, h | .unary _ _, _, _, _, h | .binary _ _ _, _, _, _, h
  | .function _ _, _, _, _, h | .call _ _, _, _, _, h | .index _ _, _, _, _, h => by
      simp only [Expr.shown, Run.bind_eq_ok] at h
      obtain ⟨v, st₁, -, h⟩ := h
      cases h
      simp [Expr.tail, Stmt.isSilent]

theorem Stmt.shown_eq_none_iff (call : Applier) (i : ScopeId) :
    ∀ (s : Stmt) {shown : Option Value} {st st' : Store}, s.shown call i st = (.ok shown, st') →
      (shown = none ↔ Stmt.isSilent (s.tail call i st))
  | .bind _ _, _, _, _, h | .ret _, _, _, _, h => by
      rw [Stmt.shown, Run.bind_eq_ok] at h
      obtain ⟨v, st₁, -, h⟩ := h
      cases h
      simp [Stmt.tail, Stmt.isSilent]
  | .expr value, _, _, _, h => by
      rw [Stmt.shown] at h
      rw [Stmt.tail]
      exact value.shown_eq_none_iff call i h
  | .block body, _, _, _, h => by
      rw [Stmt.shown] at h
      rw [Stmt.tail]
      exact Stmt.shownAll_eq_none_iff call i body h

theorem Stmt.shownAll_eq_none_iff (call : Applier) (i : ScopeId) :
    ∀ (ss : List Stmt) {shown : Option Value} {st st' : Store},
      Stmt.shownAll call i ss none st = (.ok shown, st') →
        (shown = none ↔ Stmt.isSilent (Stmt.tailAll call i ss st))
  | [], _, _, _, h => by
      cases h
      simp [Stmt.tailAll, Stmt.isSilent]
  | [s], _, _, _, h => by
      rw [Stmt.shownAll, Run.bind_eq_ok] at h
      obtain ⟨shown, st₁, hs, h⟩ := h
      cases h
      exact s.shown_eq_none_iff call i hs
  | s :: t :: ss, _, st, _, h => by
      rw [Stmt.shownAll, Run.bind_eq_ok] at h
      obtain ⟨shown, st₁, hs, h⟩ := h
      -- the tail is defined by evaluation, which leads to the same store
      have hst : (s.eval call i st).2 = st₁ := by rw [s.eval_eq_map_shown, Run.map_apply, hs]
      rw [Stmt.tailAll, hst]
      exact Stmt.shownAll_eq_none_iff call i (t :: ss) h

end

/-- The two ways to run statements stop alike and lead to the same store, and the value is what is
shown. So a program is evaluated like a block whose return is unwrapped. A run that does not stop
shows nothing exactly if it ends in a binding or in an empty list. -/
theorem shownAll_agrees (limit : Nat) (i : ScopeId) (ss : List Stmt) (st : Store) :
    Stmt.evalAll (Value.apply limit) i ss .null st =
        ((Stmt.shownAll (Value.apply limit) i ss none st).1.map Value.orNull,
          (Stmt.shownAll (Value.apply limit) i ss none st).2) ∧
      Program.eval limit i ⟨ss⟩ st =
        (Halt.settle (Stmt.evalAll (Value.apply limit) i ss .null st).1,
          (Stmt.evalAll (Value.apply limit) i ss .null st).2) ∧
      ∀ shown st', Stmt.shownAll (Value.apply limit) i ss none st = (.ok shown, st') →
        (shown = none ↔ Stmt.isSilent (Stmt.tailAll (Value.apply limit) i ss st)) := by
  refine ⟨?_, Program.eval_eq_settle limit i ⟨ss⟩ st, ?_⟩
  · rw [Stmt.evalAll_null, Run.map_apply]
  · intro shown st' h
    exact Stmt.shownAll_eq_none_iff (Value.apply limit) i ss h

/-- In `5; { if (true) { let x = 1; } }` the binding is reached through a block and a branch. -/
theorem shownAll_agrees_nested :
    let ss : List Stmt := [.expr (.int 5),
      .block [.expr (.cond (.bool true) [.bind "x" (.int 1)] none)]]
    let st := Store.empty.newRoot.2
    ∃ st', Stmt.shownAll (Value.apply 7) 0 ss none st = (.ok none, st') ∧
      Stmt.isSilent (Stmt.tailAll (Value.apply 7) 0 ss st) := by
  intro ss st
  exact ⟨_, rfl, ((shownAll_agrees 7 0 ss st).2.2 none _ rfl).1 rfl⟩

end Sprig
