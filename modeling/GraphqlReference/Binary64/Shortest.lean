import GraphqlReference.Binary64

namespace GraphqlReference.Binary64

/-- The decimal `digits * 10 ^ exponent`. -/
structure Decimal where
  digits : Nat
  exponent : Int
  deriving DecidableEq, Repr

/-- The reals that round to a positive finite number, in quarters of its last place. The lower
bound is nearer below a power of two, and both bounds belong to the interval just when the
significand is even. -/
structure RoundingInterval where
  lower : Nat
  value : Nat
  upper : Nat
  closed : Bool
  deriving DecidableEq, Repr

def roundingInterval (significand : Nat) (exponent : Int) : RoundingInterval :=
  let belowIsHalf := significand = leastFullSignificand ∧ minExponent < exponent
  { lower := if belowIsHalf then 4 * significand - 1 else 4 * significand - 2
    value := 4 * significand
    upper := 4 * significand + 2
    closed := significand % 2 = 0 }

/-- The number of digits in front of the decimal point of a positive fraction; zero or less when
it begins behind the point. -/
def decimalOrder (numerator denominator : Nat) : Int :=
  let guess : Int :=
    ((Nat.toDigits 10 numerator).length : Int) - (Nat.toDigits 10 denominator).length
  let (scaled, unit) := scaleBy 10 numerator denominator (-guess)
  if scaled < unit then guess else guess + 1

/-- The neighbour of the value on the grid of multiples of `10 ^ place` that lies in the interval
and is the nearer one; a tie goes up. The interval is given in units of `2 ^ (exponent - 2)`. -/
def nearestOnGrid? (interval : RoundingInterval) (exponent place : Int) : Option Decimal :=
  let (multiplier, unit) :=
    let (numerator, denominator) := scaleBy 2 1 1 (exponent - 2)
    scaleBy 10 numerator denominator (-place)
  let below := interval.value * multiplier / unit
  let holds (grid : Nat) : Bool :=
    let point := grid * unit
    if interval.closed then
      interval.lower * multiplier ≤ point ∧ point ≤ interval.upper * multiplier
    else interval.lower * multiplier < point ∧ point < interval.upper * multiplier
  let aboveIsNearer := 2 * (interval.value * multiplier % unit) ≥ unit
  match holds below, holds (below + 1) with
  | false, false => none
  | true, false => some ⟨below, place⟩
  | false, true => some ⟨below + 1, place⟩
  | true, true => some ⟨if aboveIsNearer then below + 1 else below, place⟩

/-- Tries grids of growing fineness, up to the seventeen digits that always suffice. -/
def shortestFrom (interval : RoundingInterval) (exponent order : Int) (count : Nat) : Nat → Decimal
  | 0 => ⟨0, 0⟩
  | fuel + 1 =>
    match nearestOnGrid? interval exponent (order - count) with
    | some decimal => decimal
    | none => shortestFrom interval exponent order (count + 1) fuel

/-- The same decimal without zeros at its end. -/
def Decimal.trimmed (decimal : Decimal) : Decimal :=
  if 0 < decimal.digits ∧ decimal.digits % 10 = 0 then
    trimmed ⟨decimal.digits / 10, decimal.exponent + 1⟩
  else decimal
termination_by decimal.digits

/-- The decimal with the fewest digits among those that round to a positive finite number, and the
nearest of these. -/
def shortest (significand : Nat) (exponent : Int) : Decimal :=
  let (numerator, denominator) := scaleBy 2 significand 1 exponent
  let order := decimalOrder numerator denominator
  (shortestFrom (roundingInterval significand exponent) exponent order 1 17).trimmed

/-- A decimal written out without exponent; the point appears only where it is needed. -/
def Decimal.positional (decimal : Decimal) : List Char :=
  let digits := Nat.toDigits 10 decimal.digits
  if 0 ≤ decimal.exponent then digits ++ List.replicate decimal.exponent.toNat '0'
  else
    let places := (-decimal.exponent).toNat
    let padded := List.replicate (places + 1 - digits.length) '0' ++ digits
    padded.take (padded.length - places) ++ '.' :: padded.drop (padded.length - places)

/-- The text of a number: the shortest decimal that reads back, never with an exponent. -/
def write : Binary64 → List Char
  | .nan => "NaN".toList
  | .infinite negative => if negative then "-inf".toList else "inf".toList
  | .finite negative significand exponent =>
    let magnitude := if significand = 0 then ['0'] else (shortest significand exponent).positional
    if negative then '-' :: magnitude else magnitude

/-- The text of a number as a literal that shows it is no integer: a finite number without a point
gets one decimal place. -/
def writeFractional (number : Binary64) : List Char :=
  let text := write number
  if number.isFinite && !text.contains '.' then text ++ ['.', '0'] else text

end GraphqlReference.Binary64
