import GraphqlReference.Schema.Definition
import GraphqlReference.Schema.Error

namespace GraphqlReference

structure Schema where
  description : Option String
  query : String
  mutation : Option String
  subscription : Option String
  usages : List DirectiveUsage
  types : List TypeDefinition
  directives : List DirectiveDefinition
  deriving Repr

namespace Schema

def type? (schema : Schema) (name : String) : Option TypeDefinition :=
  schema.types.find? (·.name == name)

def directive? (schema : Schema) (name : String) : Option DirectiveDefinition :=
  schema.directives.find? (·.name == name)

/-- The name of the root type of an operation. -/
def root? (schema : Schema) : Operation → Option String
  | .query => some schema.query
  | .mutation => schema.mutation
  | .subscription => schema.subscription

end Schema

end GraphqlReference
