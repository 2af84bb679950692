import TagScript.Numeral.Decimal

/-! The integers of the language: 64 bits with a sign. Sums, differences and
products are exact or absent; nothing wraps around. -/
namespace TagScript.Integer

def smallest : Int := -9223372036854775808
def largest : Int := 9223372036854775807

def ofInt? (n : Int) : Option Int64 :=
  if smallest ≤ n ∧ n ≤ largest then some (Int64.ofInt n) else none

def saturate (n : Int) : Int64 :=
  Int64.ofInt (max smallest (min largest n))

def add? (a b : Int64) : Option Int64 :=
  ofInt? (a.toInt + b.toInt)

def sub? (a b : Int64) : Option Int64 :=
  ofInt? (a.toInt - b.toInt)

def mul? (a b : Int64) : Option Int64 :=
  ofInt? (a.toInt * b.toInt)

def magnitude? (row : List Char) : Option Nat :=
  if row ≠ [] ∧ row.all Decimal.isDigit then some (Decimal.value row) else none

/-- One sign may stand before the digits; the number has to be in range. -/
def read? : List Char → Option Int64
  | '-' :: row => do ofInt? (-(← magnitude? row : Nat))
  | '+' :: row => do ofInt? (← magnitude? row : Nat)
  | row => do ofInt? (← magnitude? row : Nat)

def text (n : Int64) : String :=
  Decimal.ofInt n.toInt

theorem toInt_of_ofInt? {n : Int} {m : Int64} (h : ofInt? n = some m) : m.toInt = n := by
  unfold ofInt? at h
  split at h
  next range =>
    simp only [smallest, largest] at range
    cases h
    exact Int64.toInt_ofInt_of_le (by omega) (by omega)
  next => cases h

@[simp] theorem ofInt?_toInt (m : Int64) : ofInt? m.toInt = some m := by
  have low := Int64.le_toInt m
  have high := Int64.toInt_lt m
  have range : smallest ≤ m.toInt ∧ m.toInt ≤ largest := by
    simp only [smallest, largest]
    omega
  rw [ofInt?, if_pos range, Int64.ofInt_toInt]

end TagScript.Integer
