import GraphqlReference.Schema.Definition

namespace GraphqlReference.BuiltIn

private def scalar (name description : String) : TypeDefinition :=
  { name, description := some description, origin := .builtIn, usages := [], body := .scalar }

def scalars : List TypeDefinition :=
  [ scalar "String"
      "The `String` scalar type represents textual data, represented as UTF-8 character sequences."
  , scalar "Int"
      "The `Int` scalar type represents non-fractional signed whole numeric values."
  , scalar "Float"
      "The `Float` scalar type represents signed double-precision fractional values."
  , scalar "Boolean" "The `Boolean` scalar type represents `true` or `false`."
  , scalar "ID"
      "The `ID` scalar type represents a unique identifier, often used to refetch an object or as key for a cache." ]

/-- The value of the argument of @deprecated that stands for no particular reason. -/
def defaultDeprecationReason : String := "No longer supported"

private def condition (description : String) : Argument :=
  { name := "if", description := some description, type := .nonNull (.named "Boolean")
    default := none, usages := [] }

private def directive (name description : String) (arguments : List Argument)
    (locations : List DirectiveLocation) : DirectiveDefinition :=
  { name, description := some description, origin := .builtIn, arguments, repeatable := false
    locations }

def directives : List DirectiveDefinition :=
  [ directive "include"
      "Directs the executor to include this field or fragment only when the `if` argument is true."
      [condition "Included when true."] [.field, .fragmentSpread, .inlineFragment]
  , directive "skip"
      "Directs the executor to skip this field or fragment when the `if` argument is true."
      [condition "Skipped when true."] [.field, .fragmentSpread, .inlineFragment]
  , directive "deprecated"
      "Marks an element of a GraphQL schema as no longer supported."
      [ { name := "reason", description := some "Explains why this element was deprecated."
          type := .named "String", default := some (.string defaultDeprecationReason)
          usages := [] } ]
      [.fieldDefinition, .argumentDefinition, .inputFieldDefinition, .enumValue]
  , directive "specifiedBy"
      "Exposes a URL that specifies the behavior of this scalar."
      [ { name := "url", description := some "The URL that specifies the behavior of this scalar."
          type := .nonNull (.named "String"), default := none, usages := [] } ]
      [.scalar]
  , directive "oneOf"
      "Indicates exactly one field must be supplied and this field must not be `null`."
      [] [.inputObject] ]

end GraphqlReference.BuiltIn
