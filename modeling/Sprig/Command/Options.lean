import Sprig.Evaluation.Shown

/-!
Command line arguments.

Arguments are read from left to right and the first thing that decides the outcome wins: a mistake,
or a request for help or for the version. Only whether a listing has a file to list is decided at
the end.
-/

namespace Sprig.Command

/-- The forms of a file that can be listed. -/
inductive Listing
  | tokens | tree
  deriving DecidableEq

def Listing.ofName? (s : String) : Option Listing :=
  if s = "tokens" then some .tokens
  else if s = "ast" then some .tree
  else none

structure Options where
  file : Option String := none
  listing : Option Listing := none
  limit : Option Nat := none

inductive Request
  | run (options : Options)
  | version
  | help

inductive Mistake
  | unknownArgument (arg : String)
  | emptyFile
  | missingValue (option : String)
  | unneededValue (option : String)
  | badValue (option value : String)
  | repeated (option : String)
  | listingWithoutFile
  deriving DecidableEq

def Mistake.message : Mistake → String
  | unknownArgument arg => "unexpected argument '" ++ arg ++ "' found"
  | emptyFile => "a value is required for '[FILE]' but none was supplied"
  | missingValue option => "a value is required for '" ++ option ++ "' but none was supplied"
  | unneededValue option => "unexpected value for '" ++ option ++ "' found"
  | badValue option value => "invalid value '" ++ value ++ "' for '" ++ option ++ "'"
  | repeated option => "the argument '" ++ option ++ "' cannot be used multiple times"
  | listingWithoutFile => "the following required arguments were not provided: <FILE>"

/-- The options that take a value. -/
inductive Setting
  | emit | maxCallDepth

def Setting.name : Setting → String
  | emit => "--emit"
  | maxCallDepth => "--max-call-depth"

/-- An argument by its form. -/
inductive Argument
  /-- Everything behind this one is a file. -/
  | endOfOptions
  /-- A setting, with the value behind `=` if it has one. -/
  | setting (s : Setting) (value : Option String)
  | version
  | help
  | file (name : String)
  | mistake (m : Mistake)

/-- An option name, up to the first `=`, and what stands behind that. -/
def splitEquals (cs : List Char) : String × Option String :=
  let name := String.ofList (cs.takeWhile (· ≠ '='))
  match cs.dropWhile (· ≠ '=') with
  | [] => (name, none)
  | _ :: value => (name, some (String.ofList value))

def Argument.ofText (arg : String) : Argument :=
  match arg.toList with
  | ['-', '-'] => .endOfOptions
  | '-' :: '-' :: cs =>
    let (name, value) := splitEquals cs
    if name = "emit" then .setting .emit value
    else if name = "max-call-depth" then .setting .maxCallDepth value
    else if name = "version" then
      if value.isSome then .mistake (.unneededValue "--version") else .version
    else if name = "help" then
      if value.isSome then .mistake (.unneededValue "--help") else .help
    else .mistake (.unknownArgument arg)
  | '-' :: c :: _ =>
    if c = 'V' then .version
    else if c = 'h' then .help
    else .mistake (.unknownArgument arg)
  | _ => .file arg

/-- Whether an argument can be the value of the setting before it. -/
def isValue (arg : String) : Bool :=
  match arg.toList with
  | '-' :: _ :: _ => false
  | _ => true

namespace Options

def setFile (o : Options) (name : String) : Except Mistake Options :=
  if o.file.isSome then .error (.unknownArgument name)
  else if name = "" then .error .emptyFile
  else .ok { o with file := some name }

def set (o : Options) (s : Setting) (value : String) : Except Mistake Options :=
  match s with
  | .emit =>
    match Listing.ofName? value with
    | none => .error (.badValue s.name value)
    | some l =>
      if o.listing.isSome then .error (.repeated s.name) else .ok { o with listing := some l }
  | .maxCallDepth =>
    match Text.readNatural64? value with
    | none => .error (.badValue s.name value)
    | some n =>
      if o.limit.isSome then .error (.repeated s.name) else .ok { o with limit := some n }

def finish (o : Options) : Except Mistake Request :=
  if o.listing.isSome && o.file.isNone then .error .listingWithoutFile else .ok (.run o)

def readFiles (o : Options) : List String → Except Mistake Request
  | [] => o.finish
  | name :: rest => do (← o.setFile name).readFiles rest

def read (o : Options) : List String → Except Mistake Request
  | [] => o.finish
  | arg :: rest =>
    match Argument.ofText arg with
    | .endOfOptions => o.readFiles rest
    | .setting s (some value) => do (← o.set s value).read rest
    | .setting s none =>
      match rest with
      | value :: rest =>
        if isValue value then do (← o.set s value).read rest
        else .error (.missingValue s.name)
      | [] => .error (.missingValue s.name)
    | .version => .ok .version
    | .help => .ok .help
    | .file name => do (← o.setFile name).read rest
    | .mistake m => .error m
termination_by structural args => args

end Options

def Request.ofArgs (args : List String) : Except Mistake Request :=
  Options.read {} args

end Sprig.Command
