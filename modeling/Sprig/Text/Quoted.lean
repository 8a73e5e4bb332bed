import Sprig.Text.Visible

/-!
Quoted text, the form in which strings appear inside other output.

Quote and backslash are escaped by a backslash, four control characters have a letter, and every
other character that cannot stand for itself is written as its code point in hexadecimal.
-/

namespace Sprig.Text

/-- The code point of `c` in lower-case hexadecimal between braces. -/
def codePoint (c : Char) : List Char :=
  '\\' :: 'u' :: '\x7b' :: (Nat.toDigits 16 c.toNat ++ ['\x7d'])

def quoteChar (c : Char) : List Char :=
  if c = '"' then ['\\', '"']
  else if c = '\\' then ['\\', '\\']
  else if c = '\t' then ['\\', 't']
  else if c = '\n' then ['\\', 'n']
  else if c = '\r' then ['\\', 'r']
  else if c = '\x00' then ['\\', '0']
  else if isVisible c then [c]
  else codePoint c

def quoted (s : String) : String :=
  String.ofList ('"' :: s.toList.flatMap quoteChar ++ ['"'])

/-- A visible character that needs no backslash is quoted as itself. -/
theorem quoteChar_of_visible {c : Char} (hq : c ≠ '"') (hb : c ≠ '\\')
    (h : isVisible c = true) : quoteChar c = [c] := by
  have ht : c ≠ '\t' := by rintro rfl; exact absurd h (by decide)
  have hn : c ≠ '\n' := by rintro rfl; exact absurd h (by decide)
  have hr : c ≠ '\r' := by rintro rfl; exact absurd h (by decide)
  have h0 : c ≠ '\x00' := by rintro rfl; exact absurd h (by decide)
  simp [quoteChar, *]

end Sprig.Text
