import GraphqlReference.Binary64

namespace GraphqlReference.Binary64

/-- The value of a run of decimal digits. -/
def digitsValue (digits : List Char) : Nat :=
  digits.foldl (fun value digit => value * 10 + (digit.toNat - '0'.toNat)) 0

/-- A decimal order no binary64 number reaches: what is larger is infinite and what is smaller
than its inverse is zero. -/
def decimalRange : Int := 400

/-- The number nearest to `significand * 10 ^ exponent`. -/
def ofDecimal (negative : Bool) (significand : Nat) (exponent : Int) : Binary64 :=
  if significand = 0 then zero negative
  else
    let order := exponent + (Nat.toDigits 10 significand).length
    if decimalRange < order then .infinite negative
    else if order < -decimalRange then zero negative
    else
      let (numerator, denominator) := scaleBy 10 significand 1 exponent
      ofFraction negative numerator denominator

/-- The parts of a decimal numeral, in digits. -/
structure Numeral where
  negative : Bool
  whole : List Char
  fraction : List Char
  exponent : Int
  deriving DecidableEq, Repr

def Numeral.toBinary64 (numeral : Numeral) : Binary64 :=
  ofDecimal numeral.negative (digitsValue (numeral.whole ++ numeral.fraction))
    (numeral.exponent - numeral.fraction.length)

/-- A sign in front of a numeral: whether it is a minus, and what follows it. -/
def splitSign : List Char → Bool × List Char
  | '-' :: rest => (true, rest)
  | '+' :: rest => (false, rest)
  | text => (false, text)

/-- An exponent mark with its digits; the empty text is the exponent zero. -/
def readExponent? : List Char → Option Int
  | [] => some 0
  | mark :: rest =>
    if mark = 'e' ∨ mark = 'E' then
      let (negative, digits) := splitSign rest
      if digits.isEmpty ∨ !digits.all Char.isDigit then none
      else some (if negative then -(digitsValue digits : Int) else digitsValue digits)
    else none

/-- A decimal numeral in general form: a sign, digits with at most one point among them, an
exponent; or, in letters of any case, an infinity or what is not a number. -/
def ofText? (text : List Char) : Option Binary64 :=
  let (negative, body) := splitSign text
  match String.ofList (body.map Char.toLower) with
  | "inf" | "infinity" => some (.infinite negative)
  | "nan" => some .nan
  | _ =>
    let whole := body.takeWhile Char.isDigit
    let behind := body.dropWhile Char.isDigit
    let (fraction, tail) :=
      match behind with
      | '.' :: rest => (rest.takeWhile Char.isDigit, rest.dropWhile Char.isDigit)
      | _ => ([], behind)
    if whole.isEmpty && fraction.isEmpty then none
    else (readExponent? tail).map fun exponent =>
      Numeral.toBinary64 ⟨negative, whole, fraction, exponent⟩

end GraphqlReference.Binary64
