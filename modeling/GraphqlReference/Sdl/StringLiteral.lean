import GraphqlReference.Sdl.Lexical
import GraphqlReference.Text.Lines
import GraphqlReference.Text.Reader

namespace GraphqlReference.Sdl

open Text

/-- The character that a single letter stands for behind a backslash. -/
def simpleEscape? : Char → Option Char
  | '"' => some '"'
  | '\\' => some '\\'
  | '/' => some '/'
  | 'b' => some '\x08'
  | 'f' => some '\x0c'
  | 'n' => some '\n'
  | 'r' => some '\r'
  | 't' => some '\t'
  | _ => none

/-- The characters up to the closing quotation mark, which must stand on the same line. -/
def quotedRest : Reader (List Char)
  | [] => none
  | '"' :: rest => some ([], rest)
  | '\\' :: 'u' :: a :: b :: c :: d :: rest => do
    let decoded ← ofHexDigits? [a, b, c, d]
    let (more, rest) ← quotedRest rest
    some (decoded :: more, rest)
  | '\\' :: mark :: rest => do
    let decoded ← simpleEscape? mark
    let (more, rest) ← quotedRest rest
    some (decoded :: more, rest)
  | c :: rest =>
    if c = '\\' ∨ isLineEnd c then none
    else (quotedRest rest).map fun (more, rest) => (c :: more, rest)

/-- The raw characters up to three quotation marks. Three marks behind a backslash do not close the
string and are kept with the backslash. -/
def blockRest : Reader (List Char)
  | [] => none
  | '"' :: '"' :: '"' :: rest => some ([], rest)
  | '\\' :: '"' :: '"' :: '"' :: rest =>
    (blockRest rest).map fun (more, rest) => ('\\' :: '"' :: '"' :: '"' :: more, rest)
  | c :: rest => (blockRest rest).map fun (more, rest) => (c :: more, rest)

def isIndent (c : Char) : Bool :=
  c == ' ' || c == '\t'

def isIndentOnly (line : List Char) : Bool :=
  line.all isIndent

/-- The least indentation of the lines that hold more than indentation; zero if there are none. -/
def commonIndent (lines : List (List Char)) : Nat :=
  let indents := (lines.filter (!isIndentOnly ·)).map fun line => (line.takeWhile isIndent).length
  indents.min?.getD 0

/-- A line without a given indentation; a line of mere indentation may be shorter and stays. -/
def unindent (indent : Nat) (line : List Char) : List Char :=
  if indent ≤ line.length then line.drop indent else line

/-- The lines without those of mere indentation at both ends. -/
def trimLines (lines : List (List Char)) : List (List Char) :=
  ((lines.dropWhile isIndentOnly).reverse.dropWhile isIndentOnly).reverse

/-- The text of a block string. All lines but the first lose the indentation they have in common. -/
def blockText (raw : List Char) : List Char :=
  match terminatedPieces raw with
  | [] => []
  | first :: rest =>
    ['\n'].intercalate (trimLines (first :: rest.map (unindent (commonIndent rest))))

/-- A block string or a quoted string that begins right here. An unclosed block string is the empty
string, and its third quotation mark remains. -/
def stringHere : Reader String
  | '"' :: '"' :: '"' :: rest =>
    match blockRest rest with
    | some (raw, rest) => some (String.ofList (blockText raw), rest)
    | none => some ("", '"' :: rest)
  | '"' :: rest => (quotedRest rest).map fun (content, rest) => (String.ofList content, rest)
  | _ => none

def string : Reader String := fun text =>
  stringHere (skip text)

end GraphqlReference.Sdl
