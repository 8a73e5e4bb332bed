import Sprig.Evaluation.Shown
import Sprig.Grammar.Parsed

/-!
A session runs source texts one after another in the same root scope.

A text with diagnostics is not evaluated at all. A fault keeps what was defined before it.
-/

namespace Sprig

/-- Why a source text has no result. -/
inductive Failure
  | syntactic (diagnostics : Array Diagnostic)
  | fault (f : Fault)

/-- The result of a source text, which can be that there is nothing to show, and what was printed
on the way. -/
structure Reply where
  result : Except Failure (Option Value)
  output : String

structure Session where
  limit : Nat
  root : ScopeId
  store : Store

namespace Session

def start (limit : Nat) : Session :=
  let (root, store) := Store.empty.newRoot
  { limit, root, store }

def run (s : Session) (source : String) : Reply × Session :=
  let parsed := Parsed.ofText source
  if parsed.isClean then
    let (result, store) := parsed.program.shown s.limit s.root s.store
    let (output, store) := store.takeOutput
    ({ result := result.mapError .fault, output }, { s with store })
  else
    ({ result := .error (.syntactic parsed.diagnostics), output := "" }, s)

theorem run_of_clean (s : Session) {source : String} (h : (Parsed.ofText source).isClean) :
    s.run source =
      let ran := (Parsed.ofText source).program.shown s.limit s.root s.store
      (⟨ran.1.mapError .fault, ran.2.output⟩, { s with store := ran.2.takeOutput.2 }) := by
  rw [run, if_pos h]
  rfl

end Session

end Sprig
