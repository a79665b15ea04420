namespace GraphqlReference.Text

/-!
Readers take a text and give what they have read with the text that remains, or nothing.
-/

abbrev Reader (α : Type) := List Char → Option (α × List Char)

/-- What a reader gives, or nothing and the text as it was. -/
def optional {α : Type} (reader : Reader α) (text : List Char) : Option α × List Char :=
  match reader text with
  | some (result, rest) => (some result, rest)
  | none => (none, text)

def manyWithin {α : Type} (reader : Reader α) : Nat → List Char → List α × List Char
  | 0, text => ([], text)
  | fuel + 1, text =>
    match reader text with
    | some (first, rest) =>
      let (more, rest) := manyWithin reader fuel rest
      (first :: more, rest)
    | none => ([], text)

/-- What a reader gives as often as it can be repeated. A reader to be repeated takes a character at
least, so the length of the text bounds the number of repetitions. -/
def many {α : Type} (reader : Reader α) (text : List Char) : List α × List Char :=
  manyWithin reader text.length text

/-- One result at least. -/
def some1 {α : Type} (reader : Reader α) : Reader (List α) := fun text => do
  let (first, rest) ← reader text
  let (more, rest) := many reader rest
  some (first :: more, rest)

/-- The text behind a given word. -/
def behind? (word : String) (text : List Char) : Option (List Char) :=
  word.toList.isPrefixOf? text

def hexValue? (c : Char) : Option Nat :=
  if c.isDigit then some (c.toNat - '0'.toNat)
  else if 'a' ≤ c ∧ c ≤ 'f' then some (c.toNat - 'a'.toNat + 10)
  else if 'A' ≤ c ∧ c ≤ 'F' then some (c.toNat - 'A'.toNat + 10)
  else none

/-- The character of a code point; a surrogate has none. -/
def ofCodePoint? (code : Nat) : Option Char :=
  if h : code.isValidChar then some (Char.ofNatAux code h) else none

/-- The number that hexadecimal digits stand for. -/
def hexNumber? (digits : List Char) : Option Nat :=
  digits.foldlM (fun number digit => (hexValue? digit).map (number * 16 + ·)) 0

/-- The character whose code point some hexadecimal digits give. -/
def ofHexDigits? (digits : List Char) : Option Char :=
  (hexNumber? digits).bind ofCodePoint?

end GraphqlReference.Text
