import Sprig.Session
import Sprig.Text.Blank

/-!
The interactive loop, line by line.

Each line is run in one session. A line that is blank is passed over.
-/

namespace Sprig

def Failure.report : Failure → String
  | .syntactic ds =>
      "parser errors:" ++ String.join (ds.toList.map fun d => "\n\t" ++ d.message)
  | .fault f => "ERROR: " ++ f.message

/-- The line to print for a result, if there is something to show. -/
def Reply.line? (r : Reply) : Option String :=
  match r.result with
  | .ok v => v.map Value.display
  | .error e => some e.report

namespace Command

def version : String := "quickbeam 0.0.1"

def banner : String := version ++ " (type help() for usage, Ctrl-D to exit)\n"

/-- Run one line and say everything that appears on the screen for it. -/
def evalLine (s : Session) (line : String) : String × Session :=
  let (reply, s) := s.run line
  match reply.line? with
  | some text => (reply.output ++ text ++ "\n", s)
  | none => (reply.output, s)

def replLine (s : Session) (line : String) : String × Session :=
  if Text.isBlankLine line then ("", s) else evalLine s line

def replLines (s : Session) : List String → String
  | [] => ""
  | line :: lines =>
    let (text, s) := replLine s line
    text ++ replLines s lines

end Command

end Sprig
