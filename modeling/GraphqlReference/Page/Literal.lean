import GraphqlReference.Html.Piece
import GraphqlReference.Page.Link
import GraphqlReference.Value.Literal

namespace GraphqlReference.Page

open Html

/-- A composite between its brackets, with commas between its parts. -/
def composite (style opening closing : String) (parts : List Fragment) : Fragment :=
  let inner :=
    if parts.isEmpty then []
    else Fragment.spanning "value" (.join (.span "comma" ",") parts)
  Fragment.span style opening ++ inner ++ Fragment.span style closing

/-- A literal of the given style. -/
def leaf (style : String) (value : Value) : Fragment :=
  .spanning style [.text value.write]

mutual

/-- The markup of a value. Only a number that is not finite has none. -/
def literal : Value → Except RenderError Fragment
  | .boolean value => .ok (leaf (if value then "true" else "false") (.boolean value))
  | .int value => .ok (leaf "int-literal" (.int value))
  | .float number =>
    if number.isFinite then .ok (leaf "float-literal" (.float number))
    else .error (.unsupportedValue number)
  | .string text => .ok (leaf "string-literal" (.string text))
  | .enum name => .ok (leaf "enum-literal" (.enum name))
  | .null => .ok (leaf "null" .null)
  | .list items => do
    let parts ← literals items
    .ok (composite "bracket-square" "[" "]" parts)
  | .object fields => do
    let parts ← fieldLiterals fields
    .ok (composite "bracket-curly" "\x7b" "\x7d" parts)

def literals : List Value → Except RenderError (List Fragment)
  | [] => .ok []
  | item :: rest => do
    let first ← literal item
    let more ← literals rest
    .ok (first :: more)

def fieldLiterals : List (String × Value) → Except RenderError (List Fragment)
  | [] => .ok []
  | (name, value) :: rest => do
    let shown ← literal value
    let more ← fieldLiterals rest
    .ok ((Fragment.span "value-name" name ++ Fragment.span "colon" ":" ++ shown) :: more)

end

end GraphqlReference.Page
