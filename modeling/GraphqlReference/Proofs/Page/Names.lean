import GraphqlReference.Schema

namespace GraphqlReference

namespace Value

mutual

/-- The enum values and the keys in a value. -/
def names : Value → List String
  | .enum name => [name]
  | .list items => itemNames items
  | .object fields => fieldNames fields
  | _ => []

def itemNames : List Value → List String
  | [] => []
  | item :: rest => names item ++ itemNames rest

def fieldNames : List (String × Value) → List String
  | [] => []
  | (name, value) :: rest => name :: names value ++ fieldNames rest

end

end Value

/-- The names in the supplied values. The names of the arguments are those of a declaration. -/
def DirectiveUsage.names (usage : DirectiveUsage) : List String :=
  usage.arguments.flatMap fun (_, value) => value.names

def Argument.names (argument : Argument) : List String :=
  argument.name :: (argument.default.elim [] Value.names ++
    argument.usages.flatMap DirectiveUsage.names)

def Field.names (field : Field) : List String :=
  field.name :: (field.arguments.flatMap Argument.names ++
    field.usages.flatMap DirectiveUsage.names)

def EnumItem.names (item : EnumItem) : List String :=
  item.name :: item.usages.flatMap DirectiveUsage.names

def TypeBody.names : TypeBody → List String
  | .object _ fields | .interface _ fields => fields.flatMap Field.names
  | .inputObject fields => fields.flatMap Argument.names
  | .enum items => items.flatMap EnumItem.names
  | .union _ | .scalar => []

def TypeDefinition.names (definition : TypeDefinition) : List String :=
  definition.name :: (definition.usages.flatMap DirectiveUsage.names ++ definition.body.names)

/-- The name of a directive itself is never shown without an at sign. -/
def DirectiveDefinition.names (definition : DirectiveDefinition) : List String :=
  definition.arguments.flatMap Argument.names

def Schema.names (schema : Schema) : List String :=
  schema.usages.flatMap DirectiveUsage.names ++ (schema.types.flatMap TypeDefinition.names ++
    schema.directives.flatMap DirectiveDefinition.names)

namespace Schema

variable {schema : Schema} {name : String}

theorem mem_names_of_usage {usage : DirectiveUsage} (member : usage ∈ schema.usages)
    (named : name ∈ usage.names) : name ∈ schema.names :=
  List.mem_append_left _ (List.mem_flatMap_of_mem member named)

theorem mem_names_of_type {definition : TypeDefinition} (member : definition ∈ schema.types)
    (named : name ∈ definition.names) : name ∈ schema.names :=
  List.mem_append_right _ (List.mem_append_left _ (List.mem_flatMap_of_mem member named))

theorem mem_names_of_directive {definition : DirectiveDefinition}
    (member : definition ∈ schema.directives) (named : name ∈ definition.names) :
    name ∈ schema.names :=
  List.mem_append_right _ (List.mem_append_right _ (List.mem_flatMap_of_mem member named))

end Schema

end GraphqlReference
