import Sprig.Text.Quoted
import Sprig.Token.Basic

/-!
What can be wrong with a token sequence.
-/

namespace Sprig

inductive Diagnostic
  /-- One kind of token was required next and another one stood there. -/
  | unexpected (expected got : Kind)
  /-- No expression starts with a token of this kind. -/
  | noOperand (kind : Kind)
  /-- A numeral that is malformed or does not fit in 64 bits. -/
  | badInteger (text : String)
  deriving DecidableEq

def Diagnostic.message : Diagnostic → String
  | unexpected expected got =>
      "expected next token to be " ++ expected.label ++ ", got " ++ got.label
  | noOperand kind => "no prefix parse function for " ++ kind.label ++ " found"
  | badInteger text => "could not parse " ++ Text.quoted text ++ " as integer"

end Sprig
