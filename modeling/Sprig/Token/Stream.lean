import Sprig.Text.Blank
import Sprig.Token.Basic

/-!
From text to tokens.

`Token.scan` reads one token as far as it goes and returns the rest of the text. `Token.stream`
repeats it until the end of the text, which is itself the last token. `Lexer` is the same stream
read on demand: `Lexer.nextToken` answers the end of the text for ever, `Lexer.next?` only once.
-/

namespace Sprig

/-- Words are made of ASCII letters and underscores, without digits. -/
def Text.isWordChar (c : Char) : Bool :=
  c.isAlpha || c == '_'

namespace Token

open Text

/-- The token that starts with `c`, and the text behind it. -/
def scanFrom (c : Char) (cs : List Char) : Token × List Char :=
  match Kind.ofSymbol? c with
  | some k =>
    match k.withEquals?, cs with
    | some k', '=' :: rest => (symbol k', rest)
    | _, _ => (symbol k, cs)
  | none =>
    if c = '"' then
      (⟨.string, String.ofList (cs.takeWhile (· ≠ '"'))⟩, (cs.dropWhile (· ≠ '"')).tail)
    else if isWordChar c then
      (word (String.ofList (c :: cs.takeWhile isWordChar)), cs.dropWhile isWordChar)
    else if c.isDigit then
      (⟨.int, String.ofList (c :: cs.takeWhile Char.isDigit)⟩, cs.dropWhile Char.isDigit)
    else
      (⟨.illegal, String.singleton c⟩, cs)

/-- The next token of a text, after any blanks. -/
def scan (cs : List Char) : Token × List Char :=
  match cs.dropWhile isAsciiBlank with
  | [] => (eof, [])
  | c :: rest => scanFrom c rest

theorem length_dropWhile_le {α : Type} (p : α → Bool) (l : List α) :
    (l.dropWhile p).length ≤ l.length :=
  (List.dropWhile_sublist p).length_le

theorem length_scanFrom_le (c : Char) (cs : List Char) :
    (scanFrom c cs).2.length ≤ cs.length := by
  unfold scanFrom
  split
  · split <;> simp
  · split
    · exact Nat.le_trans (by simp) (length_dropWhile_le (· ≠ '"') cs)
    · split
      · exact length_dropWhile_le _ _
      · split
        · exact length_dropWhile_le _ _
        · exact Nat.le_refl _

/-- Every token but the end of the text takes at least one character. -/
theorem length_scan_lt {cs : List Char} (h : (scan cs).1 ≠ eof) :
    (scan cs).2.length < cs.length := by
  have hle := length_dropWhile_le isAsciiBlank cs
  unfold scan at *
  split at h
  · exact absurd rfl h
  · next c rest heq =>
      rw [heq] at hle
      exact Nat.lt_of_le_of_lt (length_scanFrom_le c rest) hle

/-- All tokens of a text; the last one, and only that one, is its end. -/
def stream (cs : List Char) : List Token :=
  if _h : (scan cs).1 = eof then [eof]
  else (scan cs).1 :: stream (scan cs).2
termination_by cs.length
decreasing_by exact length_scan_lt _h

def ofText (s : String) : List Token :=
  stream s.toList

end Token

/-- A text that is being read token by token. -/
structure Lexer where
  rest : List Char
  finished : Bool := false

namespace Lexer

def ofText (s : String) : Lexer := { rest := s.toList }

/-- The next token, which past the last one is the end of the text every time. -/
def nextToken (l : Lexer) : Token × Lexer :=
  let (t, rest) := Token.scan l.rest
  (t, { l with rest })

/-- The next token, or nothing once this function has answered the end of the text. -/
def next? (l : Lexer) : Option Token × Lexer :=
  if l.finished then (none, l)
  else
    let (t, l) := l.nextToken
    (some t, { l with finished := t.kind == .eof })

end Lexer

end Sprig
