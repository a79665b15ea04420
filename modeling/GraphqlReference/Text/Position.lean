namespace GraphqlReference.Text

/-- A line and a column, both counted from one. -/
structure Position where
  line : Nat
  column : Nat
  deriving DecidableEq, Repr

namespace Position

def start : Position := ⟨1, 1⟩

/-- The position behind a character: LF opens a line, CR goes back to the first column. -/
def advance (position : Position) (c : Char) : Position :=
  if c = '\n' then ⟨position.line + 1, 1⟩
  else if c = '\r' then { position with column := 1 }
  else { position with column := position.column + 1 }

/-- The position behind a text that begins at the first column of the first line. -/
def after (text : List Char) : Position :=
  text.foldl advance start

/-- How many bytes from here the first place with the wanted position is, for a text that begins
at `current`. The end of the text is such a place too. -/
def bytesTo? (wanted current : Position) : List Char → Option Nat
  | [] => if current = wanted then some 0 else none
  | c :: rest =>
    if current = wanted then some 0
    else (bytesTo? wanted (current.advance c) rest).map (c.utf8Size + ·)

/-- The byte offset of the first place of a text that has this position. -/
def byteOffset? (position : Position) (source : List Char) : Option Nat :=
  bytesTo? position start source

end Position

/-- The length of a text in UTF-8 bytes. -/
def utf8Size : List Char → Nat
  | [] => 0
  | c :: rest => c.utf8Size + utf8Size rest

/-- What follows the given number of bytes, if that number ends a character. -/
def dropBytes? : Nat → List Char → Option (List Char)
  | 0, text => some text
  | _ + 1, [] => none
  | count, c :: rest => if c.utf8Size ≤ count then dropBytes? (count - c.utf8Size) rest else none

/-- The given number of bytes, if that number ends a character. -/
def takeBytes? : Nat → List Char → Option (List Char)
  | 0, _ => some []
  | _ + 1, [] => none
  | count, c :: rest =>
    if c.utf8Size ≤ count then (takeBytes? (count - c.utf8Size) rest).map (c :: ·) else none

/-- The text between two byte offsets, if they are in order and both stand between characters. -/
def byteSlice? (text : List Char) (first last : Nat) : Option (List Char) :=
  if first ≤ last then (dropBytes? first text).bind (takeBytes? (last - first)) else none

end GraphqlReference.Text
