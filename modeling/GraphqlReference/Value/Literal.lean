import GraphqlReference.Binary64.Shortest
import GraphqlReference.Text.Lines
import GraphqlReference.Value

namespace GraphqlReference.Value

/-- Four hexadecimal digits or more, in capitals. -/
def hexadecimal (code : Nat) : List Char :=
  let digits := (Nat.toDigits 16 code).map Char.toUpper
  List.replicate (4 - digits.length) '0' ++ digits

/-- One character between quotation marks. -/
def quoteChar (c : Char) : List Char :=
  if c = '"' then ['\\', '"']
  else if c = '\\' then ['\\', '\\']
  else if c = '\n' then ['\\', 'n']
  else if c = '\r' then ['\\', 'r']
  else if c = '\t' then ['\\', 't']
  else if Text.isControl c then '\\' :: 'u' :: hexadecimal c.toNat
  else [c]

/-- A text as a string literal. -/
def quote (text : List Char) : List Char :=
  '"' :: text.flatMap quoteChar ++ ['"']

/-- An integer in decimal digits. -/
def writeInt (value : Int) : List Char :=
  let digits := Nat.toDigits 10 value.natAbs
  if value < 0 then '-' :: digits else digits

mutual

/-- The literal of a value. -/
def write : Value → List Char
  | .boolean value => (if value then "true" else "false").toList
  | .int value => writeInt value.toInt
  | .float value => value.writeFractional
  | .string text => quote text.toList
  | .enum name => name.toList
  | .null => "null".toList
  | .list items => '[' :: writeItems items ++ [']']
  | .object fields => '{' :: writeFields fields ++ ['}']

def writeItems : List Value → List Char
  | [] => []
  | [item] => write item
  | item :: rest => write item ++ ',' :: ' ' :: writeItems rest

def writeFields : List (String × Value) → List Char
  | [] => []
  | [(name, value)] => name.toList ++ ':' :: ' ' :: write value
  | (name, value) :: rest =>
    name.toList ++ ':' :: ' ' :: write value ++ ',' :: ' ' :: writeFields rest

end

end GraphqlReference.Value
