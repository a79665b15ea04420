import GraphqlReference.Schema.Definition
import GraphqlReference.Sdl.Number
import GraphqlReference.Sdl.StringLiteral

namespace GraphqlReference.Sdl

open Text

/-- The words that stand for a value of their own; no enum value may begin with one of them. -/
def wordValue? (text : List Char) : Option (Value × List Char) :=
  match behind? "true" text with
  | some rest => some (.boolean true, rest)
  | none =>
    match behind? "false" text with
    | some rest => some (.boolean false, rest)
    | none => (behind? "null" text).map fun rest => (.null, rest)

/-- The name of an enum value. -/
def enumName : Reader String := fun text =>
  let text := skip text
  if (wordValue? text).isSome then none else nameHere text

/-- A value that is neither list nor object. -/
def leaf : Reader Value := fun text =>
  number text <|>
  (string text).map (fun (content, rest) => (.string content, rest)) <|>
  wordValue? (skip text) <|>
  (enumName text).map (fun (name, rest) => (.enum name, rest))

/-- A name with the value behind it. -/
def namedValue (value : Reader Value) : Reader (String × Value) := fun text => do
  let (name, rest) ← name text
  let ((), rest) ← keyword ":" rest
  let (result, rest) ← value rest
  some ((name, result), rest)

/-- A value in which no more than the given number of brackets are open at once. -/
def valueWithin : Nat → Reader Value
  | 0, text => leaf text
  | depth + 1, text =>
    match leaf text with
    | some result => some result
    | none =>
      match skip text with
      | '[' :: rest => do
        let (items, rest) := many (valueWithin depth) rest
        let ((), rest) ← keyword "]" rest
        some (.list items, rest)
      | '{' :: rest => do
        let (fields, rest) := many (namedValue (valueWithin depth)) rest
        let ((), rest) ← keyword "\x7d" rest
        some (.object fields, rest)
      | _ => none

/-- A constant value. The length of the text bounds the number of its brackets. An object has all
its fields as they are written, also under repeated names. -/
def value : Reader Value := fun text =>
  valueWithin text.length text

/-- A reference with the exclamation mark that may follow it. -/
def withNonNull (type : TypeRef) : List Char → TypeRef × List Char
  | '!' :: rest => (.nonNull type, rest)
  | text => (type, text)

/-- A type reference that begins right here, without anything between its tokens. -/
def typeRefHere : Reader TypeRef
  | [] => none
  | '[' :: rest =>
    match typeRefHere rest with
    | some (inner, ']' :: rest) => some (withNonNull (.list inner) rest)
    | _ => none
  | c :: rest => (nameHere (c :: rest)).map fun (name, rest) => withNonNull (.named name) rest

def typeRef : Reader TypeRef := fun text =>
  typeRefHere (skip text)

end GraphqlReference.Sdl
