import Sprig.Text.Blank
import Sprig.Text.Ranges
import Sprig.Text.Extending
import Sprig.Text.Visible
import Sprig.Text.Quoted
import Sprig.Text.Decimal
import Sprig.Integer
import Sprig.Token.Basic
import Sprig.Token.Stream
import Sprig.Tree.Basic
import Sprig.Tree.Render
import Sprig.Diagnostic
import Sprig.Grammar.Cursor
import Sprig.Grammar.Precedence
import Sprig.Grammar.Expression
import Sprig.Grammar.Statement
import Sprig.Grammar.Parsed
import Sprig.Builtin
import Sprig.Value.Basic
import Sprig.Value.Text
import Sprig.Store
import Sprig.Evaluation.Fault
import Sprig.Evaluation.Run
import Sprig.Evaluation.Operators
import Sprig.Evaluation.Builtins
import Sprig.Evaluation.Basic
import Sprig.Evaluation.Shown
import Sprig.Session
import Sprig.Json.Basic
import Sprig.Json.Tree
import Sprig.Command.Options
import Sprig.Command.Repl
import Sprig.Command.Run
import Sprig.Main
import Sprig.Proofs.Grammar.Tables
import Sprig.Proofs.Grammar.Agreement
import Sprig.Proofs.Grammar.Braces
import Sprig.Proofs.Grammar.Frame
import Sprig.Proofs.Grammar.Containment
import Sprig.Proofs.Grammar.Replay
import Sprig.Proofs.Grammar.Composition
import Sprig.Proofs.Grammar.Writing
import Sprig.Proofs.Grammar.Completeness
import Sprig.Proofs.Grammar.Soundness
import Sprig.Proofs.Evaluation.Showing
import Sprig.Proofs.Evaluation.Effects
import Sprig.Proofs.Evaluation.Locality
import Sprig.Proofs.Evaluation.Machine
import Sprig.Proofs.Evaluation.Adequacy
import Sprig.Proofs.Evaluation.Depth
import Sprig.Proofs.Evaluation.Agreement
import Sprig.Proofs.Evaluation.Independence
import Sprig.Proofs.Evaluation.Unwinding
import Sprig.Proofs.Token.Spelling
import Sprig.Proofs.Session.Chunks
import Sprig.Proofs.Grammar.Origin
import Sprig.Proofs.Grammar.Rendering
import Sprig.Proofs.Evaluation.Closed
import Sprig.Proofs.Evaluation.Host
import Sprig.Proofs.Evaluation.Repetition
import Sprig.Proofs.Token.Printing
import Sprig.Proofs.Token.Partition
import Sprig.Proofs.Grammar.Accounting
import Sprig.Proofs.Evaluation.Arithmetic
import Sprig.Proofs.Store.Definitions
import Sprig.Proofs.Store.Trace
import Sprig.Proofs.Evaluation.Resolution
import Sprig.Proofs.Grammar.Ending
import Sprig.Proofs.Command.Blanks
import Sprig.Proofs.Session.ReadBack
import Sprig.Proofs.Evaluation.Identity
import Sprig.Proofs.Evaluation.Equality
import Sprig.Proofs.Token.Interleaving
import Sprig.Proofs.Json.Unambiguous
import Sprig.Proofs.Grammar.Nesting
import Sprig.Proofs.Grammar.Routine
import Sprig.Proofs.Grammar.Activation
import Sprig.Proofs.Grammar.Progress
