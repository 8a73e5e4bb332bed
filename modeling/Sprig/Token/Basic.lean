/-!
Tokens: a kind and the text that was read for it.

A kind has two spellings. `Kind.label` is how diagnostics mention it, and for operators and
delimiters it is also the text the token is written with. `Kind.name` is how token listings and
other tools name it.
-/

namespace Sprig

inductive Kind
  | illegal | eof | ident | int | string
  | assign | plus | minus | bang | star | slash | lt | gt | eq | notEq
  | comma | semicolon | lparen | rparen | lbrace | rbrace | lbracket | rbracket
  | kwFn | kwLet | kwTrue | kwFalse | kwIf | kwElse | kwReturn
  deriving DecidableEq, Inhabited

namespace Kind

def label : Kind → String
  | illegal => "ILLEGAL"
  | eof => "EOF"
  | ident => "IDENT"
  | int => "INT"
  | string => "STRING"
  | assign => "="
  | plus => "+"
  | minus => "-"
  | bang => "!"
  | star => "*"
  | slash => "/"
  | lt => "<"
  | gt => ">"
  | eq => "=="
  | notEq => "!="
  | comma => ","
  | semicolon => ";"
  | lparen => "("
  | rparen => ")"
  | lbrace => "\x7b"
  | rbrace => "\x7d"
  | lbracket => "["
  | rbracket => "]"
  | kwFn => "FUNCTION"
  | kwLet => "LET"
  | kwTrue => "TRUE"
  | kwFalse => "FALSE"
  | kwIf => "IF"
  | kwElse => "ELSE"
  | kwReturn => "RETURN"

def name : Kind → String
  | illegal => "ILLEGAL"
  | eof => "EOF"
  | ident => "IDENT"
  | int => "INT"
  | string => "STRING"
  | assign => "ASSIGN"
  | plus => "PLUS"
  | minus => "MINUS"
  | bang => "BANG"
  | star => "ASTERISK"
  | slash => "SLASH"
  | lt => "LT"
  | gt => "GT"
  | eq => "EQ"
  | notEq => "NOT_EQ"
  | comma => "COMMA"
  | semicolon => "SEMICOLON"
  | lparen => "L_PAREN"
  | rparen => "R_PAREN"
  | lbrace => "L_BRACE"
  | rbrace => "R_BRACE"
  | lbracket => "L_BRACKET"
  | rbracket => "R_BRACKET"
  | kwFn => "FUNCTION"
  | kwLet => "LET"
  | kwTrue => "TRUE"
  | kwFalse => "FALSE"
  | kwIf => "IF"
  | kwElse => "ELSE"
  | kwReturn => "RETURN"

/-- Every kind, in the order of the declaration. -/
def all : List Kind :=
  [illegal, eof, ident, int, string,
   assign, plus, minus, bang, star, slash, lt, gt, eq, notEq,
   comma, semicolon, lparen, rparen, lbrace, rbrace, lbracket, rbracket,
   kwFn, kwLet, kwTrue, kwFalse, kwIf, kwElse, kwReturn]

theorem mem_all (k : Kind) : k ∈ all := by
  cases k <;> decide

def ofName? (s : String) : Option Kind :=
  all.find? fun k => k.name == s

/-- The kind of a single-character operator or delimiter. -/
def ofSymbol? (c : Char) : Option Kind :=
  if c = '=' then some assign
  else if c = '+' then some plus
  else if c = '-' then some minus
  else if c = '!' then some bang
  else if c = '*' then some star
  else if c = '/' then some slash
  else if c = '<' then some lt
  else if c = '>' then some gt
  else if c = ',' then some comma
  else if c = ';' then some semicolon
  else if c = '(' then some lparen
  else if c = ')' then some rparen
  else if c = '\x7b' then some lbrace
  else if c = '\x7d' then some rbrace
  else if c = '[' then some lbracket
  else if c = ']' then some rbracket
  else none

/-- The kind that an operator becomes when `=` follows it directly. -/
def withEquals? : Kind → Option Kind
  | assign => some eq
  | bang => some notEq
  | _ => none

/-- Keywords with the words they are written as. -/
def keywords : List (String × Kind) :=
  [("fn", kwFn), ("let", kwLet), ("true", kwTrue), ("false", kwFalse), ("if", kwIf),
   ("else", kwElse), ("return", kwReturn)]

/-- A word is a keyword or an identifier. -/
def ofWord (w : String) : Kind :=
  (keywords.lookup w).getD ident

end Kind

structure Token where
  kind : Kind
  text : String
  deriving DecidableEq, Inhabited

namespace Token

def eof : Token := ⟨.eof, ""⟩

/-- An operator or a delimiter, whose text is its label. -/
def symbol (k : Kind) : Token := ⟨k, k.label⟩

def word (w : String) : Token := ⟨Kind.ofWord w, w⟩

end Token

end Sprig
