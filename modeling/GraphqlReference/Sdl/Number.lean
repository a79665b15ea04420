import GraphqlReference.Binary64.Decimal
import GraphqlReference.Sdl.Lexical
import GraphqlReference.Value

namespace GraphqlReference.Sdl

/-!
Number literals and the values they denote. Integers of 64 bits are exact. All other numbers are
computed from a significand of 64 bits and a power of ten, rounding at each step.
-/

open Text

/-- A number literal in its parts. The exponent comes with its sign. -/
structure NumberLiteral where
  negative : Bool
  whole : List Char
  fraction : Option (List Char)
  exponent : Option (Bool × List Char)
  deriving DecidableEq, Repr

/-- Digits without a superfluous zero in front. -/
def wholeDigits : Reader (List Char)
  | '0' :: rest => some (['0'], rest)
  | c :: rest =>
    if c.isDigit then some (c :: rest.takeWhile Char.isDigit, rest.dropWhile Char.isDigit) else none
  | [] => none

def digits1 : Reader (List Char) := fun text =>
  let digits := text.takeWhile Char.isDigit
  if digits.isEmpty then none else some (digits, text.dropWhile Char.isDigit)

def fractionHere : Reader (List Char)
  | '.' :: rest => digits1 rest
  | _ => none

def exponentHere : Reader (Bool × List Char)
  | [] => none
  | mark :: rest =>
    if mark = 'e' ∨ mark = 'E' then
      let (negative, rest) := Binary64.splitSign rest
      (digits1 rest).map fun (digits, rest) => ((negative, digits), rest)
    else none

def startsName : List Char → Bool
  | c :: _ => isNameStart c
  | [] => false

/-- A number that begins right here; no name may follow at once. -/
def numberHere : Reader NumberLiteral := fun text => do
  let (negative, rest) := match text with
    | '-' :: rest => (true, rest)
    | _ => (false, text)
  let (whole, rest) ← wholeDigits rest
  let (fraction, rest) := optional fractionHere rest
  let (exponent, rest) := optional exponentHere rest
  if startsName rest then none else some (⟨negative, whole, fraction, exponent⟩, rest)

namespace NumberLiteral

/-- What fits into 64 bits without a sign is below this. -/
def significandLimit : Nat := 18446744073709551616

/-- Appends digits to a significand as long as it stays below the limit; what is left over is
given back. -/
def gather (significand : Nat) : List Char → Nat × List Char
  | [] => (significand, [])
  | digit :: rest =>
    let longer := significand * 10 + (digit.toNat - '0'.toNat)
    if longer < significandLimit then gather longer rest else (significand, digit :: rest)

/-- The largest power of ten that is used in one step. -/
def largestPower : Nat := 308

def powerOfTen (exponent : Nat) : Binary64 :=
  .ofNat (Nat.pow 10 exponent)

/-- A number times a power of ten. An exponent that is too large makes any number but zero
infinite; one that is too small is worked off in steps. -/
def scale (number : Binary64) (exponent : Int) : Binary64 :=
  if number.isZero then number
  else if exponent < -(largestPower : Int) then
    scale (number.div (powerOfTen largestPower)) (exponent + largestPower)
  else if exponent < 0 then number.div (powerOfTen (-exponent).toNat)
  else if exponent ≤ largestPower then number.mul (powerOfTen exponent.toNat)
  else .infinite false
termination_by exponent.natAbs
decreasing_by simp only [largestPower] at *; omega

/-- The largest power of two that fits into 64 bits with a minus only. -/
def integerLimit : Nat := 9223372036854775808

/-- What is taken as the number of an exponent is below this. -/
def exponentLimit : Nat := 2147483648

/-- A significand times a power of ten that is given in two parts: an offset, and an exponent as it
was written. -/
def compose (significand : Nat) (offset : Int) (exponent : Option (Bool × List Char)) : Binary64 :=
  match exponent with
  | none => scale (.ofNat significand) offset
  | some (negative, digits) =>
    let written := Binary64.digitsValue digits
    if written < exponentLimit then
      scale (.ofNat significand) (if negative then offset - written else offset + written)
    else if negative ∨ significand = 0 then .zero false
    else .infinite false

def withSign (negative : Bool) (number : Binary64) : Binary64 :=
  if negative then number.neg else number

/-- The value of a number literal. One that is out of range denotes an infinity. -/
def value (number : NumberLiteral) : Value :=
  let (significand, dropped) := gather 0 number.whole
  match number.fraction, number.exponent, dropped with
  | none, none, [] =>
    if number.negative ∧ 0 < significand ∧ significand ≤ integerLimit then
      .int (Int64.ofInt (-(significand : Int)))
    else if !number.negative ∧ significand < integerLimit then .int (Int64.ofInt significand)
    else .float (withSign number.negative (.ofNat significand))
  | fraction, exponent, dropped =>
    let places := fraction.getD []
    let (significand, unused) := gather significand places
    let offset : Int := (dropped.length : Int) - (places.length - unused.length : Nat)
    .float (withSign number.negative (compose significand offset exponent))

end NumberLiteral

def number : Reader Value := fun text =>
  (numberHere (skip text)).map fun (literal, rest) => (literal.value, rest)

end GraphqlReference.Sdl
