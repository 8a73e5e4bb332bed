/-!
JSON documents and their two written forms.

Fields keep their order. `Json.compact` writes no blanks; `Json.pretty` puts every item and every
field on a line of its own, indented by two spaces per level.
-/

namespace Sprig

inductive Json
  | null
  | bool (value : Bool)
  | int (value : Int)
  | str (value : String)
  | list (items : List Json)
  | record (fields : List (String × Json))
  deriving Inhabited

namespace Json

/-- Control characters without a letter of their own are written with four hexadecimal digits. -/
def escapeChar (c : Char) : List Char :=
  if c = '"' then ['\\', '"']
  else if c = '\\' then ['\\', '\\']
  else if c = '\x08' then ['\\', 'b']
  else if c = '\x0c' then ['\\', 'f']
  else if c = '\n' then ['\\', 'n']
  else if c = '\r' then ['\\', 'r']
  else if c = '\t' then ['\\', 't']
  else if c.toNat < 0x20 then
    ['\\', 'u', '0', '0', Nat.digitChar (c.toNat / 16), Nat.digitChar (c.toNat % 16)]
  else [c]

def escaped (s : String) : String :=
  String.ofList ('"' :: s.toList.flatMap escapeChar ++ ['"'])

/-- Two spaces for each level. -/
def indent (level : Nat) : String :=
  String.ofList (List.replicate (2 * level) ' ')

mutual

def compact : Json → String
  | null => "null"
  | bool b => if b then "true" else "false"
  | int n => n.repr
  | str s => escaped s
  | list items => "[" ++ ",".intercalate (compactItems items) ++ "]"
  | record fields => "\x7b" ++ ",".intercalate (compactFields fields) ++ "\x7d"
termination_by structural j => j

def compactItems : List Json → List String
  | [] => []
  | j :: js => j.compact :: compactItems js
termination_by structural js => js

def compactField : String × Json → String
  | (key, j) => escaped key ++ ":" ++ j.compact
termination_by structural f => f

def compactFields : List (String × Json) → List String
  | [] => []
  | f :: fs => compactField f :: compactFields fs
termination_by structural fs => fs

end

/-- Lines one level deeper than `level`, between two delimiters. -/
def enclose (level : Nat) (opening closing : String) (lines : List String) : String :=
  if lines.isEmpty then opening ++ closing
  else
    let margin := "\n" ++ indent (level + 1)
    opening ++ margin ++ ("," ++ margin).intercalate lines ++ "\n" ++ indent level ++ closing

mutual

def prettyAt (level : Nat) : Json → String
  | null => "null"
  | bool b => if b then "true" else "false"
  | int n => n.repr
  | str s => escaped s
  | list items => enclose level "[" "]" (prettyItems (level + 1) items)
  | record fields => enclose level "\x7b" "\x7d" (prettyFields (level + 1) fields)
termination_by structural j => j

def prettyItems (level : Nat) : List Json → List String
  | [] => []
  | j :: js => j.prettyAt level :: prettyItems level js
termination_by structural js => js

def prettyField (level : Nat) : String × Json → String
  | (key, j) => escaped key ++ ": " ++ j.prettyAt level
termination_by structural f => f

def prettyFields (level : Nat) : List (String × Json) → List String
  | [] => []
  | f :: fs => prettyField level f :: prettyFields level fs
termination_by structural fs => fs

end

def pretty (j : Json) : String := j.prettyAt 0

end Json

end Sprig
