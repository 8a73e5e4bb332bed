import Sprig.Evaluation.Fault
import Sprig.Store

/-!
Computations on the store that can stop early.

The store is kept when a computation stops: what was defined and printed before stays.
-/

namespace Sprig

def Run (ε α : Type) : Type := Store → Except ε α × Store

namespace Run

variable {ε δ α β : Type}

@[always_inline, inline]
protected def pure (a : α) : Run ε α := fun st => (.ok a, st)

@[always_inline, inline]
protected def bind (x : Run ε α) (f : α → Run ε β) : Run ε β := fun st =>
  match x st with
  | (.ok a, st) => f a st
  | (.error e, st) => (.error e, st)

@[always_inline]
instance : Monad (Run ε) where
  pure := Run.pure
  bind := Run.bind

@[inline]
def stop (e : ε) : Run ε α := fun st => (.error e, st)

/-- A step that cannot fail. -/
@[inline]
def step (f : Store → α × Store) : Run ε α := fun st =>
  let (a, st) := f st
  (.ok a, st)

/-- Run something that knows fewer ways to stop. -/
@[inline]
def lift (into : δ → ε) (x : Run δ α) : Run ε α := fun st =>
  match x st with
  | (.ok a, st) => (.ok a, st)
  | (.error e, st) => (.error (into e), st)

@[simp]
theorem pure_apply (a : α) (st : Store) : (pure a : Run ε α) st = (.ok a, st) := rfl

@[simp]
theorem bind_apply (x : Run ε α) (f : α → Run ε β) (st : Store) :
    (x >>= f) st = match x st with
      | (.ok a, st) => f a st
      | (.error e, st) => (.error e, st) := rfl

/-- Whatever stops a computation stops everything that was to follow it. -/
theorem bind_of_error {x : Run ε α} {st st' : Store} {e : ε} (h : x st = (.error e, st'))
    (f : α → Run ε β) : (x >>= f) st = (.error e, st') := by
  simp only [bind_apply, h]

theorem bind_of_ok {x : Run ε α} {st st' : Store} {a : α} (h : x st = (.ok a, st'))
    (f : α → Run ε β) : (x >>= f) st = f a st' := by
  simp only [bind_apply, h]

theorem bind_eq_ok {x : Run ε α} {f : α → Run ε β} {st st'' : Store} {b : β} :
    (x >>= f) st = (.ok b, st'') ↔ ∃ a st', x st = (.ok a, st') ∧ f a st' = (.ok b, st'') := by
  constructor
  · intro h
    rw [bind_apply] at h
    split at h
    · next a st' hx => exact ⟨a, st', hx, h⟩
    · cases h
  · rintro ⟨a, st', hx, hf⟩
    rw [bind_of_ok hx, hf]

instance : LawfulMonad (Run ε) := LawfulMonad.mk' (Run ε)
  (by
    intro α x
    funext st
    show (x >>= pure) st = x st
    rw [bind_apply]
    rcases x st with ⟨_ | _, _⟩ <;> rfl)
  (by intro α β a f; rfl)
  (by
    intro α β γ x f g
    funext st
    simp only [bind_apply]
    rcases x st with ⟨_ | _, _⟩ <;> rfl)

theorem map_apply (f : α → β) (x : Run ε α) (st : Store) :
    (f <$> x) st = ((x st).1.map f, (x st).2) := by
  rw [map_eq_pure_bind, bind_apply]
  rcases x st with ⟨_ | _, _⟩ <;> rfl

end Run

/-- Stops only at a fault. -/
abbrev Step := Run Fault

/-- Stops at a fault or a return. -/
abbrev Eval := Run Halt

/-- A fault inside an evaluation. -/
@[inline]
def Step.eval {α : Type} (x : Step α) : Eval α := Run.lift Halt.fault x

theorem Step.eval_apply {α : Type} (x : Step α) (st : Store) :
    x.eval st = ((x st).1.mapError .fault, (x st).2) := by
  rw [Step.eval, Run.lift]
  rcases x st with ⟨_ | _, _⟩ <;> rfl

end Sprig
