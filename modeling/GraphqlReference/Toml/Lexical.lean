import GraphqlReference.Text.Reader

namespace GraphqlReference.Toml

open Text

def isBlank (c : Char) : Bool :=
  c == ' ' || c == '\t'

def dropBlanks (text : List Char) : List Char :=
  text.dropWhile isBlank

/-- The characters that may stand in a comment, and in every kind of string but for delimiters. -/
def isPlain (c : Char) : Bool :=
  c == '\t' || (' ' ≤ c && c ≤ '~') || 0x80 ≤ c.toNat

/-- The text behind a line end, which is LF or CRLF. -/
def behindLineEnd? : List Char → Option (List Char)
  | '\n' :: rest => some rest
  | '\r' :: '\n' :: rest => some rest
  | _ => none

def dropLineEnd (text : List Char) : List Char :=
  (behindLineEnd? text).getD text

/-- The text behind a comment, if there is one. -/
def dropComment : List Char → List Char
  | '#' :: rest => rest.dropWhile isPlain
  | text => text

/-- The text behind the rest of a line that holds nothing any more but blanks and a comment. -/
def behindLine? (text : List Char) : Option (List Char) :=
  match dropComment (dropBlanks text) with
  | [] => some []
  | rest => behindLineEnd? rest

/-- The text behind blanks, comments and line ends. -/
def skipSpace (inComment : Bool) : List Char → List Char
  | [] => []
  | '\n' :: rest => skipSpace false rest
  | '\r' :: '\n' :: rest => skipSpace false rest
  | c :: rest =>
    if inComment then if isPlain c then skipSpace true rest else c :: rest
    else if isBlank c then skipSpace false rest
    else if c = '#' then skipSpace true rest
    else c :: rest

/-- The character that a letter stands for behind a backslash. -/
def simpleEscape? : Char → Option Char
  | 'b' => some '\x08'
  | 'f' => some '\x0c'
  | 'n' => some '\n'
  | 'r' => some '\r'
  | 't' => some '\t'
  | '"' => some '"'
  | '\\' => some '\\'
  | _ => none

/-- A character given by a number of hexadecimal digits. -/
def codePoint (count : Nat) : Reader Char := fun text =>
  let digits := text.take count
  if digits.length = count then (ofHexDigits? digits).map (·, text.drop count) else none

/-- What stands behind a backslash. -/
def escape : Reader Char
  | 'u' :: rest => codePoint 4 rest
  | 'U' :: rest => codePoint 8 rest
  | mark :: rest => (simpleEscape? mark).map (·, rest)
  | [] => none

def basicChar : Reader Char
  | '\\' :: rest => escape rest
  | c :: rest => if isPlain c ∧ c ≠ '"' then some (c, rest) else none
  | [] => none

def literalChar : Reader Char
  | c :: rest => if isPlain c ∧ c ≠ '\'' then some (c, rest) else none
  | [] => none

/-- A string on one line between two equal delimiters. -/
def quoted (delimiter : Char) (char : Reader Char) : Reader String
  | [] => none
  | c :: rest =>
    if c = delimiter then
      match many char rest with
      | (content, next :: rest) =>
        if next = delimiter then some (String.ofList content, rest) else none
      | _ => none
    else none

def basicString : Reader String :=
  quoted '"' basicChar

def literalString : Reader String :=
  quoted '\'' literalChar

/-- A line end behind a backslash, with all blanks and line ends that follow it. -/
def fold? (text : List Char) : Option (List Char) :=
  (behindLineEnd? (dropBlanks text)).map fun rest =>
    (many (fun text => match text with
      | c :: rest => if isBlank c then some ((), rest) else (behindLineEnd? text).map ((), ·)
      | [] => none) rest).2

/-- A stretch of a string of several lines. Up to two delimiters in a row belong to the string. -/
def stretch (delimiter : Char) (char : Reader Char) : Reader (List Char) := fun text =>
  match behindLineEnd? text with
  | some rest => some (['\n'], rest)
  | none =>
    match text with
    | [] => none
    | c :: rest =>
      if c = delimiter then
        if (List.replicate 2 delimiter).isPrefixOf rest then none else some ([c], rest)
      else (char text).map fun (c, rest) => ([c], rest)

def basicStretch : Reader (List Char) := fun text =>
  let folded := match text with
    | '\\' :: rest => fold? rest
    | _ => none
  match folded with
  | some rest => some ([], rest)
  | none => stretch '"' basicChar text

def literalStretch : Reader (List Char) :=
  stretch '\'' literalChar

/-- A string of several lines between three delimiters on each side. A line end right behind the
opening ones does not count. Up to two more delimiters may stand before the closing ones. -/
def multiline (delimiter : Char) (part : Reader (List Char)) : Reader String := fun text =>
  match (List.replicate 3 delimiter).isPrefixOf? text with
  | none => none
  | some rest =>
    let (parts, rest) := many part (dropLineEnd rest)
    let closing := min 5 (rest.takeWhile (· = delimiter)).length
    if closing < 3 then none
    else
      some (String.ofList (parts.flatten ++ List.replicate (closing - 3) delimiter),
        rest.drop closing)

def string : Reader String := fun text =>
  if (behind? "\"\"\"" text).isSome then multiline '"' basicStretch text
  else if (behind? "'''" text).isSome then multiline '\'' literalStretch text
  else basicString text <|> literalString text

def isKeyChar (c : Char) : Bool :=
  c.isAlphanum || c == '_' || c == '-'

def bareKey : Reader String := fun text =>
  let key := text.takeWhile isKeyChar
  if key.isEmpty then none else some (String.ofList key, text.dropWhile isKeyChar)

/-- One part of a key between blanks. -/
def keyPart : Reader String := fun text => do
  let text := dropBlanks text
  let (key, rest) ← basicString text <|> literalString text <|> bareKey text
  some (key, dropBlanks rest)

/-- No key has as many parts as this. -/
def keyLimit : Nat := 80

/-- The parts of a key, with points between them. -/
def key : Reader (List String) := fun text => do
  let (first, rest) ← keyPart text
  let (more, rest) := many (fun text => match text with
    | '.' :: rest => keyPart rest
    | _ => none) rest
  if more.length + 1 < keyLimit then some (first :: more, rest) else none

end GraphqlReference.Toml
