import Sprig.Command.Run

/-!
The command line program: standard input, output and files around `Sprig.Command`.
-/

namespace Sprig.Command

/-- Whether an error has the number `n`, which the system gives with either sign. -/
def hasNumber (code n : UInt32) : Bool := code == n || code == -n

def readFailure : IO.Error → ReadFailure
  | .noFileOrDirectory .. => .missing
  | .permissionDenied .. => .denied
  | .inappropriateType _ code _ => if hasNumber code 20 then .notDirectory else .directory
  | e@(.invalidArgument _ code _) =>
    if hasNumber code 36 then .nameTooLong else .other (toString e)
  | e => .other (toString e)

def readContents (path : String) : IO (Except ReadFailure ByteArray) := do
  try
    return .ok (← IO.FS.readBinFile path)
  catch e =>
    return .error (readFailure e)

/-- A line without its line feed and the carriage return that can precede that. -/
def dropLineEnd (line : String) : String :=
  if line.endsWith "\r\n" then (line.dropEnd 2).toString
  else if line.endsWith "\n" then (line.dropEnd 1).toString
  else line

/-- Read and run lines until the input ends. -/
partial def replLoop (stdin stdout : IO.FS.Stream) (s : Session) : IO Unit := do
  let line ← stdin.getLine
  if line.isEmpty then
    return
  let (text, session) := replLine s (dropLineEnd line)
  stdout.putStr text
  stdout.flush
  replLoop stdin stdout session

def Outcome.finish (o : Outcome) : IO UInt32 := do
  (← IO.getStdout).putStr o.stdout
  (← IO.getStderr).putStr o.stderr
  return o.code.toUInt32

/-- Run the program with real input, output and files. -/
def entry (args : List String) : IO UInt32 := do
  match Request.ofArgs args with
  | .ok (.run o) =>
    match o.file with
    | some path => (runFile o path (← readContents path)).finish
    | none =>
      let stdout ← IO.getStdout
      stdout.putStr banner
      replLoop (← IO.getStdin) stdout (Session.start o.callLimit)
      return 0
  | _ => (run args [] fun _ => .error .missing).finish

end Sprig.Command

def main (args : List String) : IO UInt32 :=
  Sprig.Command.entry args
