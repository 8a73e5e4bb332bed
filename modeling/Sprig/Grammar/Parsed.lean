import Sprig.Grammar.Statement
import Sprig.Token.Stream

/-!
Programs from tokens and from text.
-/

namespace Sprig

/-- The statements that could be read, and everything that was found wrong. -/
structure Parsed where
  program : Program
  diagnostics : Array Diagnostic

namespace Parsed

def ofTokens (tokens : List Token) : Parsed :=
  let (program, c) := (Cursor.start tokens).program
  { program, diagnostics := c.diagnostics }

theorem ofTokens_of_statements {t : List Token} {ss : Block} {d : Cursor}
    (h : (Nested.within (t.length + 1)).statements Nested.endsProgram 0 (t.length + 1)
      (Cursor.start t) = (ss, d)) : ofTokens t = ⟨⟨ss⟩, d.diagnostics⟩ := by
  rw [ofTokens, Cursor.program_of_statements (c := .start t) h]

def ofText (source : String) : Parsed :=
  ofTokens (Token.ofText source)

def isClean (p : Parsed) : Bool :=
  p.diagnostics.isEmpty

end Parsed

end Sprig
