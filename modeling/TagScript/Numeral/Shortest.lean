import TagScript.Numeral.Binary64

/-! The text of a floating-point number. A whole number is written exactly,
with `.0` after it. Any other has as few decimals as read back as the same
number, and with these decimals it is the nearest; of two equally near ones the
larger is taken. There is never an exponent. -/
namespace TagScript.Binary64

def decimalUnit (places : Nat) : Nat :=
  Nat.pow 10 places

/-- The decimals lie in the interval of the reals that round to the number
`mantissa >>> scale`. Its ends belong to it if the mantissa is even. All is
measured in quarters of the last bit, since below a power of two the numbers
lie twice as close. -/
def readsBack (mantissa scale places decimals : Nat) : Bool :=
  let candidate := decimals <<< (scale + 2)
  let below := if mantissa = fullMantissa ∧ minExponent < -scale then 1 else 2
  let low := (4 * mantissa - below) * decimalUnit places
  let high := (4 * mantissa + 2) * decimalUnit places
  if mantissa % 2 = 0 then low ≤ candidate && candidate ≤ high
  else low < candidate && candidate < high

/-- The number cut off and rounded up after the given places: whichever reads
back, and the nearer if both do. -/
def decimals? (mantissa scale places : Nat) : Option Nat :=
  let scaled := mantissa * decimalUnit places
  let below := scaled >>> scale
  let middle := (2 * below + 1) <<< scale
  match readsBack mantissa scale places below, readsBack mantissa scale places (below + 1) with
  | true, true => some (if middle ≤ 2 * scaled then below + 1 else below)
  | true, false => some below
  | false, true => some (below + 1)
  | false, false => none

/-- The first count of places from `places` on that is enough, and the decimals.
As many places as the scale are always enough. -/
def fewest (mantissa scale places : Nat) : Nat → Nat × Nat
  | 0 => (places, (mantissa * decimalUnit places) >>> scale)
  | left + 1 =>
    match decimals? mantissa scale places with
    | some decimals => (places, decimals)
    | none => fewest mantissa scale (places + 1) left

def pointed (places decimals : Nat) : List Char :=
  let digits := Decimal.digits decimals
  let padded := List.replicate (places + 1 - digits.length) '0' ++ digits
  let whole := padded.length - places
  padded.take whole ++ '.' :: padded.drop whole

def sizeText (mantissa : Nat) (exponent : Int) : List Char :=
  if hasFraction mantissa exponent then
    let scale := (-exponent).toNat
    let (places, decimals) := fewest mantissa scale 1 (scale - 1)
    pointed places decimals
  else Decimal.digits (wholePart mantissa exponent) ++ ".0".toList

def text : Binary64 → String
  | nan => "NaN"
  | infinite false => "inf"
  | infinite true => "-inf"
  | finite negative m e =>
    String.ofList ((if negative then ['-'] else []) ++ sizeText m e)

end TagScript.Binary64
