import TagScript.Numeral.Integer

/-! Floating-point numbers of 64 bits, as exact values. The result of a
division is the exact quotient rounded to the nearest representable number;
of two equally near ones the one with an even last bit is taken. -/
namespace TagScript

/-- A finite number is its mantissa, with its sign, times the power of two that
the exponent tells. -/
inductive Binary64
  | nan
  | infinite (negative : Bool)
  | finite (negative : Bool) (mantissa : Nat) (exponent : Int)
deriving DecidableEq, Repr

namespace Binary64

def minExponent : Int := -1074

def maxExponent : Int := 971

/-- The mantissas of 53 bits begin here, with the 52nd power of two. -/
def fullMantissa : Nat := 4503599627370496

/-- `num` and `den` brought to whole numbers whose quotient is `num / den`
divided by the power of two of the exponent. -/
def scaleDown (num den : Nat) (exponent : Int) : Nat × Nat :=
  (num <<< (-exponent).toNat, den <<< exponent.toNat)

/-- The nearest integer to a quotient; of two the even one. -/
def roundEven (num den : Nat) : Nat :=
  let quotient := num / den
  let double := 2 * (num % den)
  if double < den ∨ (double = den ∧ quotient % 2 = 0) then quotient else quotient + 1

/-- The exponent of the greatest power of two that is at most `num / den`. -/
def magnitude (num den : Nat) : Int :=
  let k := (num.log2 : Int) - den.log2
  let (n, d) := scaleDown num den k
  if d ≤ n then k else k - 1

def exponentOf (num den : Nat) : Int :=
  max minExponent (magnitude num den - 52)

/-- Brings a mantissa that rounding made one bit too long back into its form. -/
def carry (negative : Bool) (mantissa : Nat) (exponent : Int) : Binary64 :=
  let long : Bool := mantissa = 2 * fullMantissa
  let exponent := if long then exponent + 1 else exponent
  if maxExponent < exponent then infinite negative
  else finite negative (if long then fullMantissa else mantissa) exponent

def zero (negative : Bool) : Binary64 :=
  finite negative 0 minExponent

def ofRatio (negative : Bool) (num den : Nat) : Binary64 :=
  if num = 0 then zero negative
  else
    let exponent := exponentOf num den
    let (n, d) := scaleDown num den exponent
    carry negative (roundEven n d) exponent

def ofInt (n : Int) : Binary64 :=
  ofRatio (n < 0) n.natAbs 1

def div : Binary64 → Binary64 → Binary64
  | nan, _ | _, nan => nan
  | infinite _, infinite _ => nan
  | infinite s, finite t _ _ => infinite (s ^^ t)
  | finite s _ _, infinite t => zero (s ^^ t)
  | finite s m e, finite t n f =>
    if n = 0 then (if m = 0 then nan else infinite (s ^^ t))
    else
      let (num, den) := scaleDown m n (f - e)
      ofRatio (s ^^ t) num den

/-- The quotient of two integers, each first taken to the nearest number. -/
def quotient (a b : Int64) : Binary64 :=
  (ofInt a.toInt).div (ofInt b.toInt)

def wholePart (mantissa : Nat) (exponent : Int) : Nat :=
  mantissa <<< exponent.toNat >>> (-exponent).toNat

def hasFraction (mantissa : Nat) (exponent : Int) : Bool :=
  wholePart mantissa exponent <<< (-exponent).toNat ≠ mantissa <<< exponent.toNat

/-- The integer that is left when the fraction is dropped. What is out of range
goes to the end of the range, and what is no number to 0. -/
def truncate : Binary64 → Int64
  | nan => 0
  | infinite negative => Integer.saturate (if negative then Integer.smallest else Integer.largest)
  | finite negative m e =>
    Integer.saturate (if negative then -(wholePart m e : Int) else wholePart m e)

def isZero : Binary64 → Bool
  | finite _ 0 _ => true
  | _ => false

/-- The number with the given bits: sign, 11 bits of exponent, 52 of fraction. -/
def ofBits (bits : UInt64) : Binary64 :=
  let n := bits.toNat
  let negative : Bool := n >>> 63 = 1
  let exponent : Nat := n >>> 52 % 2048
  let fraction := n % fullMantissa
  if exponent = 2047 then (if fraction = 0 then infinite negative else nan)
  else if exponent = 0 then finite negative fraction minExponent
  else finite negative (fullMantissa + fraction) (exponent - 1075)

end Binary64

end TagScript
