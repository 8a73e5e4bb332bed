/-!
Exact arithmetic on 64-bit integers.

Each operation is carried out on unbounded integers and the result is kept only when it fits, so
nothing ever wraps. Division truncates toward zero.
-/

namespace Sprig

/-- The integer as a 64-bit word, when it fits. -/
def fit? (n : Int) : Option Int64 :=
  if -9223372036854775808 ≤ n ∧ n ≤ 9223372036854775807 then some (Int64.ofInt n) else none

theorem toInt_of_fit? {n : Int} {w : Int64} (h : fit? n = some w) : w.toInt = n := by
  simp only [fit?] at h
  split at h
  · cases h
    exact Int64.toInt_ofInt_of_le (by omega) (by omega)
  · cases h

theorem fit?_toInt (w : Int64) : fit? w.toInt = some w := by
  have hlo := w.le_toInt
  have hhi := w.toInt_lt
  simp only [fit?, Int64.ofInt_toInt]
  exact if_pos (by omega)

theorem fit?_eq_none_iff {n : Int} :
    fit? n = none ↔ n < -9223372036854775808 ∨ 9223372036854775807 < n := by
  simp only [fit?]
  split <;> simp <;> omega

namespace Integer

def neg? (a : Int64) : Option Int64 := fit? (-a.toInt)

def add? (a b : Int64) : Option Int64 := fit? (a.toInt + b.toInt)

def sub? (a b : Int64) : Option Int64 := fit? (a.toInt - b.toInt)

def mul? (a b : Int64) : Option Int64 := fit? (a.toInt * b.toInt)

/-- The divisor is expected to be other than zero. -/
def div? (a b : Int64) : Option Int64 := fit? (a.toInt.tdiv b.toInt)

end Integer

end Sprig
