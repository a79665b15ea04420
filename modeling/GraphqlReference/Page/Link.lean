import GraphqlReference.Binary64.Shortest
import GraphqlReference.Html.Piece
import GraphqlReference.Schema
import GraphqlReference.Schema.Definition

namespace GraphqlReference.Page

/-!
Links from references to the declarations they name. Built-in declarations are not linked, because
their sections may not be part of the page.
-/

open Html

/-- Why the page of a schema could not be made. -/
inductive RenderError where
  | unknownType (name : String)
  | unknownDirective (name : String)
  | unknownArgument (directive argument : String)
  | unsupportedValue (number : Binary64)
  | unsupportedTypeRef (type : TypeRef)
  deriving DecidableEq, Repr

def RenderError.message : RenderError → String
  | unknownType name => s!"unknown type '{name}'"
  | unknownDirective name => s!"unknown directive '@{name}'"
  | unknownArgument directive argument =>
    s!"directive '@{directive}' has no argument '{argument}'"
  | unsupportedValue number =>
    s!"unsupported value shape: float {String.ofList number.write} has no GraphQL literal"
  | unsupportedTypeRef type => s!"unsupported type reference: {String.ofList type.write}"

/-- The anchor of the section about the schema as a whole. -/
def schemaAnchor : String := "graphql-schema"

def typeAnchor (name : String) : String :=
  "graphql-type-" ++ name

def directiveAnchor (name : String) : String :=
  "graphql-directive-" ++ name

/-- A type reference with its modifiers around the name. A non-null modifier directly inside
another one has no written form; the outermost one that has this fault is reported. -/
def typeDisplay : TypeRef → Except RenderError Fragment
  | .named name => .ok [.text name.toList]
  | .nonNull (.nonNull inner) => .error (.unsupportedTypeRef (.nonNull (.nonNull inner)))
  | .nonNull inner => do
    let shown ← typeDisplay inner
    .ok (shown ++ Fragment.span "exclamation-mark" "!")
  | .list inner => do
    let shown ← typeDisplay inner
    .ok (Fragment.span "bracket-square" "[" ++ shown ++ Fragment.span "bracket-square" "]")

/-- A link to the type that a reference names, with the description of that type as title. -/
def typeLink (schema : Schema) (style : String) (type : TypeRef) : Except RenderError Fragment :=
  let name := type.innermost
  match schema.type? name with
  | none => .error (.unknownType name)
  | some definition => do
    let shown ← typeDisplay type
    let target := if definition.isBuiltIn then none else some (typeAnchor name)
    .ok (.link style target (definition.description.getD "") shown)

/-- A link to a type given by name alone. -/
def namedTypeLink (schema : Schema) (style name : String) : Except RenderError Fragment :=
  typeLink schema style (.named name)

/-- A link to a directive, whose name stands behind an at sign. -/
def directiveLink (schema : Schema) (name : String) : Except RenderError Fragment :=
  match schema.directive? name with
  | none => .error (.unknownDirective name)
  | some definition =>
    let target := if definition.isBuiltIn then none else some (directiveAnchor name)
    .ok (.link "typename" target (definition.description.getD "") [.text ('@' :: name.toList)])

end GraphqlReference.Page
