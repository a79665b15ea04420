import GraphqlReference.Text.Reader

namespace GraphqlReference.Sdl

open Text

def isLineEnd (c : Char) : Bool :=
  c == '\n' || c == '\r'

/-- Blanks, line ends, commas and the byte order mark carry no meaning between tokens. -/
def isIgnored (c : Char) : Bool :=
  c == ' ' || c == ',' || c == '\t' || c == '\ufeff' || isLineEnd c

/-- The text from its next token on. A comment extends from a number sign to the next line end. -/
def skipFrom (inComment : Bool) : List Char → List Char
  | [] => []
  | c :: rest =>
    if inComment then skipFrom (!isLineEnd c) rest
    else if isIgnored c then skipFrom false rest
    else if c = '#' then skipFrom true rest
    else c :: rest

def skip (text : List Char) : List Char :=
  skipFrom false text

/-- A given word. It ends where it ends: a letter may follow at once. -/
def keyword (word : String) : Reader Unit := fun text =>
  (behind? word (skip text)).map ((), ·)

def isNameStart (c : Char) : Bool :=
  c.isAlpha || c == '_'

def isNamePart (c : Char) : Bool :=
  c.isAlphanum || c == '_'

/-- A name that begins right here. -/
def nameHere : Reader String
  | [] => none
  | c :: rest =>
    if isNameStart c then
      some (String.ofList (c :: rest.takeWhile isNamePart), rest.dropWhile isNamePart)
    else none

def name : Reader String := fun text =>
  nameHere (skip text)

/-- Results inside a pair of brackets, one at least. -/
def enclosed {α : Type} (opening closing : String) (reader : Reader α) : Reader (List α) :=
  fun text => do
    let ((), rest) ← keyword opening text
    let (results, rest) ← some1 reader rest
    let ((), rest) ← keyword closing rest
    some (results, rest)

/-- Results with a mark between them and possibly one in front, one result at least. -/
def separated {α : Type} (mark : String) (reader : Reader α) : Reader (List α) := fun text => do
  let (_, rest) := optional (keyword mark) text
  let (first, rest) ← reader rest
  let (more, rest) := many (fun text => (keyword mark text).bind fun found => reader found.2) rest
  some (first :: more, rest)

end GraphqlReference.Sdl
