namespace GraphqlReference

/-!
The numbers of the IEEE 754 binary64 format with their exact values: rounding a quotient to the
nearest of them, and the products and quotients that rounding defines.
-/

/-- A binary64 datum. A finite one is worth `significand * 2 ^ exponent`; the functions below build
it with an exponent of at least -1074 and a significand below 2 ^ 53 that is as large as that
exponent allows. -/
inductive Binary64 where
  | nan
  | infinite (negative : Bool)
  | finite (negative : Bool) (significand : Nat) (exponent : Int)
  deriving DecidableEq, Repr

namespace Binary64

/-- The width of the significand. -/
def precision : Nat := 53

/-- The least significand that has the full width. -/
def leastFullSignificand : Nat := Nat.pow 2 (precision - 1)

/-- The exponent of the smallest positive number. -/
def minExponent : Int := -1074

/-- The exponent of the largest finite number. -/
def maxExponent : Int := 971

def zero (negative : Bool) : Binary64 := .finite negative 0 minExponent

def isFinite : Binary64 → Bool
  | .finite .. => true
  | _ => false

def isNaN : Binary64 → Bool
  | .nan => true
  | _ => false

/-- The quotient, to the nearest integer; a half goes to the even neighbour. -/
def roundQuotient (numerator denominator : Nat) : Nat :=
  let quotient := numerator / denominator
  let remainder := numerator % denominator
  if 2 * remainder < denominator then quotient
  else if denominator < 2 * remainder then quotient + 1
  else quotient + quotient % 2

/-- A fraction scaled by a power of some base, as numerator and denominator. -/
def scaleBy (base numerator denominator : Nat) (exponent : Int) : Nat × Nat :=
  if 0 ≤ exponent then (numerator * Nat.pow base exponent.toNat, denominator)
  else (numerator, denominator * Nat.pow base (-exponent).toNat)

/-- The largest power of two that a positive fraction reaches. -/
def binaryOrder (numerator denominator : Nat) : Int :=
  let guess : Int := (numerator.log2 : Int) - denominator.log2
  let (scaled, unit) := scaleBy 2 numerator denominator (-guess)
  if scaled < unit then guess - 1 else guess

/-- The number nearest to a fraction with positive denominator; of two the one whose significand
is even. What rounds past the largest finite number is infinite. -/
def ofFraction (negative : Bool) (numerator denominator : Nat) : Binary64 :=
  if numerator = 0 then zero negative
  else
    let exponent := max (binaryOrder numerator denominator - (precision - 1 : Nat)) minExponent
    let (scaled, unit) := scaleBy 2 numerator denominator (-exponent)
    let rounded := roundQuotient scaled unit
    let (significand, exponent) :=
      if rounded = 2 * leastFullSignificand then (leastFullSignificand, exponent + 1)
      else (rounded, exponent)
    if maxExponent < exponent then .infinite negative else .finite negative significand exponent

def ofNat (value : Nat) : Binary64 := ofFraction false value 1

def neg : Binary64 → Binary64
  | .nan => .nan
  | .infinite negative => .infinite !negative
  | .finite negative significand exponent => .finite (!negative) significand exponent

/-- The product of two finite numbers, rounded; anything else gives no number. -/
def mul : Binary64 → Binary64 → Binary64
  | .finite negative significand exponent, .finite negative' significand' exponent' =>
    let (numerator, denominator) := scaleBy 2 (significand * significand') 1 (exponent + exponent')
    ofFraction (negative != negative') numerator denominator
  | _, _ => .nan

/-- The quotient of two finite numbers, rounded; anything else gives no number, and so does a
division by zero. -/
def div : Binary64 → Binary64 → Binary64
  | .finite negative significand exponent, .finite negative' significand' exponent' =>
    if significand' = 0 then .nan
    else
      let (numerator, denominator) := scaleBy 2 significand significand' (exponent - exponent')
      ofFraction (negative != negative') numerator denominator
  | _, _ => .nan

/-- A finite number as an integer multiple of the smallest positive number. -/
def scaledValue (negative : Bool) (significand : Nat) (exponent : Int) : Int :=
  let magnitude : Int := (significand * Nat.pow 2 (exponent - minExponent).toNat : Nat)
  if negative then -magnitude else magnitude

/-- Equality of values: the two zeros are equal, and what is not a number equals nothing. -/
def equalValue : Binary64 → Binary64 → Bool
  | .infinite negative, .infinite negative' => negative == negative'
  | .finite negative significand exponent, .finite negative' significand' exponent' =>
    scaledValue negative significand exponent == scaledValue negative' significand' exponent'
  | _, _ => false

def isZero : Binary64 → Bool
  | .finite _ significand _ => significand == 0
  | _ => false

end Binary64

end GraphqlReference
