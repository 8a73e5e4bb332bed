import Sprig.Integer

/-!
Decimal numerals.

A numeral is an optional sign and at least one ASCII digit. Reading one as a word refuses a value
that does not fit, so a numeral never wraps.
-/

namespace Sprig.Text

/-- The value of a non-empty run of ASCII digits. -/
def readDigits? (cs : List Char) : Option Nat :=
  if cs ≠ [] ∧ cs.all Char.isDigit then some (Nat.ofDigitChars 10 cs 0) else none

/-- A sign, if any, in front of a non-empty run of digits. -/
def readSigned? : List Char → Option Int
  | '-' :: cs => (readDigits? cs).map fun n => -(n : Int)
  | '+' :: cs => (readDigits? cs).map fun n => (n : Int)
  | cs => (readDigits? cs).map fun n => (n : Int)

def readInt64? (s : String) : Option Int64 :=
  (readSigned? s.toList).bind fit?

/-- A run of digits, optionally after `+`, whose value takes at most 64 bits. -/
def readNatural64? (s : String) : Option Nat :=
  let value? := match s.toList with
    | '+' :: cs => readDigits? cs
    | cs => readDigits? cs
  value?.filter (· ≤ 18446744073709551615)

def decimal (w : Int64) : String :=
  w.toInt.repr

end Sprig.Text
