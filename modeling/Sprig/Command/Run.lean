import Sprig.Command.Options
import Sprig.Command.Repl
import Sprig.Json.Tree

/-!
The program as a function of its arguments, the lines it is given and the files it can read.
-/

namespace Sprig.Command

structure Outcome where
  code : Nat
  stdout : String
  stderr : String

def usage : String :=
  "Run quickbeam scripts or start an interactive session\n\n" ++
  "Usage: quickbeam [OPTIONS] [FILE]\n\n" ++
  "Arguments:\n" ++
  "  [FILE]  Script to run; starts the REPL when omitted\n\n" ++
  "Options:\n" ++
  "      --emit <EMIT>                      " ++
  "Print an intermediate form of FILE as JSON instead of running it " ++
  "[possible values: tokens, ast]\n" ++
  "      --max-call-depth <MAX_CALL_DEPTH>  " ++
  "Maximum depth of nested function calls [default: 1000]\n" ++
  "  -h, --help                             Print help\n" ++
  "  -V, --version                          Print version\n"

def Mistake.outcome (m : Mistake) : Outcome :=
  { code := 2
    stdout := ""
    stderr := "error: " ++ m.message ++ "\n\nFor more information, try '--help'.\n" }

/-- Run a whole text in a session of its own. -/
def runScript (limit : Nat) (source : String) : Outcome :=
  let (reply, _) := (Session.start limit).run source
  match reply.result with
  | .ok (some v) => { code := 0, stdout := reply.output ++ v.display ++ "\n", stderr := "" }
  | .ok none => { code := 0, stdout := reply.output, stderr := "" }
  | .error e => { code := 1, stdout := reply.output, stderr := e.report ++ "\n" }

def list (l : Listing) (source : String) : Outcome :=
  match l with
  | .tokens =>
      { code := 0
        stdout := (Json.list ((Token.ofText source).map Token.toJson)).pretty ++ "\n"
        stderr := "" }
  | .tree =>
    let parsed := Parsed.ofText source
    if parsed.isClean then
      { code := 0, stdout := parsed.program.toJson.pretty ++ "\n", stderr := "" }
    else
      { code := 1
        stdout := ""
        stderr := "Error: " ++ (Failure.syntactic parsed.diagnostics).report ++ "\n" }

/-- Why a file has no text. -/
inductive ReadFailure
  | missing
  | denied
  | notDirectory
  | directory
  | nameTooLong
  | notText
  | other (reason : String)

def ReadFailure.reason : ReadFailure → String
  | missing => "No such file or directory (os error 2)"
  | denied => "Permission denied (os error 13)"
  | notDirectory => "Not a directory (os error 20)"
  | directory => "Is a directory (os error 21)"
  | nameTooLong => "File name too long (os error 36)"
  | notText => "stream did not contain valid UTF-8"
  | other reason => reason

/-- The text of a file whose contents were read. -/
def decode (contents : Except ReadFailure ByteArray) : Except ReadFailure String := do
  match String.fromUTF8? (← contents) with
  | some text => .ok text
  | none => .error .notText

def Options.callLimit (o : Options) : Nat := o.limit.getD defaultLimit

/-- Run or list the file `path`. -/
def runFile (o : Options) (path : String) (contents : Except ReadFailure ByteArray) : Outcome :=
  match decode contents with
  | .error e =>
      { code := 1
        stdout := ""
        stderr := "Error: failed to read " ++ path ++ "\n\nCaused by:\n    " ++ e.reason ++ "\n" }
  | .ok source =>
    match o.listing with
    | some l => list l source
    | none => runScript o.callLimit source

/-- The whole program. The `lines` are what a line editor makes of the input, and `files` says what
is found at a path. -/
def run (args lines : List String) (files : String → Except ReadFailure ByteArray) : Outcome :=
  match Request.ofArgs args with
  | .error m => m.outcome
  | .ok .version => { code := 0, stdout := version ++ "\n", stderr := "" }
  | .ok .help => { code := 0, stdout := usage, stderr := "" }
  | .ok (.run o) =>
    match o.file with
    | some path => runFile o path (files path)
    | none =>
        { code := 0
          stdout := banner ++ replLines (Session.start o.callLimit) lines
          stderr := "" }

end Sprig.Command
