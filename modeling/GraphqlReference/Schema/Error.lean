import GraphqlReference.Schema.Definition

namespace GraphqlReference

/-- The operations that a schema gives a root type. -/
inductive Operation where
  | query
  | mutation
  | subscription
  deriving DecidableEq, Repr

namespace Operation

def keyword : Operation → String
  | query => "query"
  | mutation => "mutation"
  | subscription => "subscription"

/-- The name of the type that serves as root where none is named. -/
def conventionalRoot : Operation → String
  | query => "Query"
  | mutation => "Mutation"
  | subscription => "Subscription"

end Operation

/-- Why a schema could not be made. The first three concern a source text that is no schema
document. -/
inductive SchemaError where
  | malformed
  | repeatedRoot (operation : Operation)
  | missingQueryRoot
  | duplicateType (name : String)
  | duplicateDirective (name : String)
  | missingQueryType
  | unknownExtension (name : String)
  | extensionKindMismatch (name : String) (found expected : TypeKind)
  deriving DecidableEq, Repr

namespace SchemaError

def parseFailure : String := "failed to parse schema: "

/-- The text of an error. Of a malformed document only the beginning is fixed. -/
def message : SchemaError → String
  | malformed => parseFailure
  | repeatedRoot operation =>
    s!"{parseFailure}multiple {operation.keyword} roots in schema definition"
  | missingQueryRoot => s!"{parseFailure}schema definition is missing query root"
  | duplicateType name => s!"type '{name}' is defined more than once"
  | duplicateDirective name => s!"directive '@{name}' is defined more than once"
  | missingQueryType => "schema has no query root type"
  | unknownExtension name => s!"cannot extend unknown type '{name}'"
  | extensionKindMismatch name found expected =>
    s!"cannot extend {found.label} '{name}' as {expected.label}"

end SchemaError

end GraphqlReference
