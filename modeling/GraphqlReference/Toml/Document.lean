import GraphqlReference.Toml.Scalar
import GraphqlReference.Toml.Table

namespace GraphqlReference.Toml

open Text

/-- A key with the value behind its equals sign. -/
def keyValue (value : Reader Value) : Reader (List String × Value) := fun text => do
  let (path, rest) ← key text
  let rest ← behind? "=" rest
  let (content, rest) ← value (dropBlanks rest)
  some ((path, content), dropBlanks rest)

/-- Results with commas between them; none at all is fine. -/
def commaSeparated {α : Type} (reader : Reader α) (text : List Char) : List α × List Char :=
  match reader text with
  | none => ([], text)
  | some (first, rest) =>
    let (more, rest) := many (fun text => match text with
      | ',' :: rest => reader rest
      | _ => none) rest
    (first :: more, rest)

/-- An item of an array between blanks, comments and line ends. -/
def arrayItem (value : Reader Value) : Reader Value := fun text => do
  let (item, rest) ← value (skipSpace false text)
  some (item, skipSpace false rest)

/-- The items of an array and its closing bracket. A comma may follow the last item. -/
def arrayRest (value : Reader Value) : Reader (List Value) := fun text =>
  let (items, rest) := commaSeparated (arrayItem value) text
  let rest := match items, rest with
    | _ :: _, ',' :: rest => rest
    | _, rest => rest
  (behind? "]" (skipSpace false rest)).map (items, ·)

/-- The pairs of an inline table and its closing brace. -/
def inlineTableRest (value : Reader Value) : Reader (List (String × Value)) := fun text => do
  let (pairs, rest) := commaSeparated (keyValue value) text
  let rest ← behind? "\x7d" (dropBlanks rest)
  let entries ← ofPairs? pairs
  some (entries, rest)

/-- A value in which arrays and inline tables are nested up to a given depth. -/
def valueWithin : Nat → Reader Value
  | 0, text => scalar text
  | depth + 1, text =>
    match text with
    | '[' :: rest =>
      (arrayRest (valueWithin depth) rest).map fun (items, rest) => (.array items, rest)
    | '{' :: rest =>
      (inlineTableRest (valueWithin depth) rest).map fun (entries, rest) => (.table entries, rest)
    | _ => scalar text

/-- How deep arrays and inline tables may be nested. -/
def nestingLimit : Nat := 79

def value : Reader Value :=
  valueWithin nestingLimit

/-- A line of a document: the header of a table or of an element in an array of tables, a key with
its value, or nothing. -/
inductive Line where
  | table (header : List String)
  | element (header : List String)
  | pair (path : List String) (value : Value)
  | empty
  deriving Repr

def header (opening closing : String) : Reader (List String) := fun text => do
  let rest ← behind? opening text
  let (path, rest) ← key rest
  let rest ← behind? closing rest
  some (path, rest)

def lineContent (text : List Char) : Option (Line × List Char) :=
  if (behind? "[[" text).isSome then
    (header "[[" "]]" text).map fun (path, rest) => (.element path, rest)
  else if (behind? "[" text).isSome then
    (header "[" "]" text).map fun (path, rest) => (.table path, rest)
  else if (behindLine? text).isSome then some (.empty, text)
  else (keyValue value text).map fun ((path, value), rest) => (.pair path value, rest)

/-- A line with its line end. -/
def line : Reader Line
  | [] => none
  | text => do
    let (content, rest) ← lineContent (dropBlanks text)
    let rest ← behindLine? rest
    some (content, rest)

/-- What has been read of a document, and the header under which it goes on. -/
structure State where
  root : Entries
  header : List String
  deriving Repr

/-- Takes up a line. -/
def State.add (state : State) : Line → Option State
  | .table header => (openTable header state.root).map (⟨·, header⟩)
  | .element header => (openElement header state.root).map (⟨·, header⟩)
  | .pair path value => (assign state.header path value state.root).map (⟨·, state.header⟩)
  | .empty => some state

def dropByteOrderMark : List Char → List Char
  | '\ufeff' :: rest => rest
  | text => text

/-- The table that a whole document describes. -/
def document? (text : List Char) : Option (List (String × Value)) :=
  match many line (dropByteOrderMark text) with
  | (lines, []) =>
    (lines.foldlM State.add ⟨[], []⟩).map fun state => entryValues state.root
  | _ => none

end GraphqlReference.Toml
