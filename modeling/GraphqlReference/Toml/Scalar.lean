import GraphqlReference.Binary64
import GraphqlReference.Binary64.Decimal
import GraphqlReference.Toml.Lexical

namespace GraphqlReference.Toml

open Text

/-- A value. Of dates and times only the text is kept. -/
inductive Value where
  | string (text : String)
  | integer (value : Int)
  | float (value : Binary64)
  | boolean (value : Bool)
  | dateTime (text : List Char)
  | array (items : List Value)
  | table (entries : List (String × Value))
  deriving Inhabited, Repr

/-- Digits of some base, between any two of which an underscore may stand; the underscores are left
out. -/
def digitsOf (isDigit : Char → Bool) : Reader (List Char)
  | [] => none
  | c :: rest =>
    if isDigit c then
      let (more, rest) := many (fun text => match text with
        | '_' :: c :: rest => if isDigit c then some (c, rest) else none
        | c :: rest => if isDigit c then some (c, rest) else none
        | [] => none) rest
      some (c :: more, rest)
    else none

def digits : Reader (List Char) :=
  digitsOf Char.isDigit

/-- Digits that begin with a zero only if they are nothing else. -/
def wholeDigits : Reader (List Char)
  | '0' :: rest => some (['0'], rest)
  | text => digits text

/-- The largest integer. -/
def integerLimit : Int := 9223372036854775807

def inRange (value : Int) : Option Int :=
  if -integerLimit - 1 ≤ value ∧ value ≤ integerLimit then some value else none

def numberIn (base : Nat) (digits : List Char) : Nat :=
  digits.foldl (fun number digit => number * base + (hexValue? digit).getD 0) 0

/-- An integer in a base that its first two characters tell. -/
def basedInteger (mark : String) (base : Nat) : Reader Int := fun text => do
  let rest ← behind? mark text
  let (digits, rest) ← digitsOf (fun c => (hexValue? c).any (· < base)) rest
  let value ← inRange (numberIn base digits)
  some (value, rest)

def decimalInteger : Reader Int := fun text => do
  let (negative, rest) := Binary64.splitSign text
  let (digits, rest) ← wholeDigits rest
  let magnitude : Int := Binary64.digitsValue digits
  let value ← inRange (if negative then -magnitude else magnitude)
  some (value, rest)

def integer : Reader Int := fun text =>
  basedInteger "0x" 16 text <|> basedInteger "0o" 8 text <|> basedInteger "0b" 2 text <|>
    decimalInteger text

def fraction : Reader (List Char)
  | '.' :: rest => digits rest
  | _ => none

def exponent : Reader Int
  | [] => none
  | mark :: rest =>
    if mark = 'e' ∨ mark = 'E' then do
      let (negative, rest) := Binary64.splitSign rest
      let (digits, rest) ← digits rest
      let magnitude : Int := Binary64.digitsValue digits
      some (if negative then -magnitude else magnitude, rest)
    else none

/-- A decimal with a fraction, an exponent or both. One that rounds to positive infinity is none. -/
def decimalFloat : Reader Binary64 := fun text => do
  let (negative, rest) := Binary64.splitSign text
  let (whole, rest) ← wholeDigits rest
  let (places, rest) := optional fraction rest
  let (power, rest) := optional exponent rest
  if places.isNone && power.isNone then none
  else
    let number := Binary64.Numeral.toBinary64 ⟨negative, whole, places.getD [], power.getD 0⟩
    if number = .infinite false then none else some (number, rest)

/-- An infinity, or what is not a number. -/
def namedFloat : Reader Binary64 := fun text =>
  let (negative, rest) := Binary64.splitSign text
  match behind? "inf" rest with
  | some rest => some (.infinite negative, rest)
  | none => (behind? "nan" rest).map fun rest => (.nan, rest)

/-- A number of a fixed count of digits that lies within bounds. -/
def counted (count low high : Nat) : Reader Nat := fun text =>
  let digits := text.take count
  let value := Binary64.digitsValue digits
  if digits.length = count ∧ digits.all Char.isDigit ∧ low ≤ value ∧ value ≤ high then
    some (value, text.drop count)
  else none

def isLeapYear (year : Nat) : Bool :=
  year % 4 == 0 && (year % 100 != 0 || year % 400 == 0)

def daysInMonth (year month : Nat) : Nat :=
  if month = 2 then if isLeapYear year then 29 else 28
  else if month = 4 ∨ month = 6 ∨ month = 9 ∨ month = 11 then 30
  else 31

def date : Reader Unit := fun text => do
  let (year, rest) ← counted 4 0 9999 text
  let rest ← behind? "-" rest
  let (month, rest) ← counted 2 1 12 rest
  let rest ← behind? "-" rest
  let (_, rest) ← counted 2 1 (daysInMonth year month) rest
  some ((), rest)

def secondFraction : Reader Unit
  | '.' :: c :: rest =>
    if c.isDigit then some ((), rest.dropWhile Char.isDigit) else none
  | _ => none

/-- A time of day; there may be a leap second. -/
def time : Reader Unit := fun text => do
  let (_, rest) ← counted 2 0 23 text
  let rest ← behind? ":" rest
  let (_, rest) ← counted 2 0 59 rest
  let rest ← behind? ":" rest
  let (_, rest) ← counted 2 0 60 rest
  let (_, rest) := optional secondFraction rest
  some ((), rest)

def offset : Reader Unit
  | [] => none
  | mark :: rest =>
    if mark = 'Z' ∨ mark = 'z' then some ((), rest)
    else if mark = '+' ∨ mark = '-' then do
      let (_, rest) ← counted 2 0 23 rest
      let rest ← behind? ":" rest
      let (_, rest) ← counted 2 0 59 rest
      some ((), rest)
    else none

/-- A time behind a date, and its offset. -/
def timeOfDate : Reader Unit
  | [] => none
  | mark :: rest =>
    if mark = 'T' ∨ mark = 't' ∨ mark = ' ' then do
      let ((), rest) ← time rest
      let (_, rest) := optional offset rest
      some ((), rest)
    else none

/-- The text behind a date, a date with a time, or a time. -/
def behindMoment? (text : List Char) : Option (List Char) :=
  match date text with
  | some (_, rest) => some (optional timeOfDate rest).2
  | none => (time text).map Prod.snd

def dateTime : Reader (List Char) := fun text =>
  (behindMoment? text).map fun rest => (text.take (text.length - rest.length), rest)

def boolean : Reader Bool := fun text =>
  match behind? "true" text with
  | some rest => some (true, rest)
  | none => (behind? "false" text).map fun rest => (false, rest)

/-- A value that holds no other values. -/
def scalar : Reader Value := fun text =>
  (string text).map (fun (content, rest) => (.string content, rest)) <|>
  (boolean text).map (fun (value, rest) => (.boolean value, rest)) <|>
  (dateTime text).map (fun (moment, rest) => (.dateTime moment, rest)) <|>
  (decimalFloat text).map (fun (number, rest) => (.float number, rest)) <|>
  (namedFloat text).map (fun (number, rest) => (.float number, rest)) <|>
  (integer text).map (fun (number, rest) => (.integer number, rest))

end GraphqlReference.Toml
