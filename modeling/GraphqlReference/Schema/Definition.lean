import GraphqlReference.Value

namespace GraphqlReference

/-- A named type, wrapped in any number of list and non-null modifiers. -/
inductive TypeRef where
  | named (name : String)
  | nonNull (inner : TypeRef)
  | list (inner : TypeRef)
  deriving DecidableEq, Inhabited, Repr

namespace TypeRef

/-- The name under all modifiers. -/
def innermost : TypeRef → String
  | .named name => name
  | .nonNull inner | .list inner => inner.innermost

/-- The reference as it is written in the schema language. -/
def write : TypeRef → List Char
  | .named name => name.toList
  | .nonNull inner => inner.write ++ ['!']
  | .list inner => '[' :: inner.write ++ [']']

end TypeRef

/-- Where a declaration comes from: the GraphQL specification or the author of a schema. -/
inductive Origin where
  | builtIn
  | user
  deriving DecidableEq, Repr

inductive TypeKind where
  | object
  | interface
  | union
  | inputObject
  | scalar
  | enum
  deriving DecidableEq, Repr

namespace TypeKind

/-- The keyword that opens a declaration of this kind. -/
def keyword : TypeKind → String
  | object => "type"
  | interface => "interface"
  | union => "union"
  | inputObject => "input"
  | scalar => "scalar"
  | enum => "enum"

/-- The name of the kind in messages. -/
def label : TypeKind → String
  | object => "Object"
  | interface => "Interface"
  | union => "Union"
  | inputObject => "InputObject"
  | scalar => "Scalar"
  | enum => "Enum"

end TypeKind

inductive DirectiveLocation where
  | query
  | mutation
  | subscription
  | field
  | fragmentDefinition
  | fragmentSpread
  | inlineFragment
  | variableDefinition
  | schema
  | scalar
  | object
  | fieldDefinition
  | argumentDefinition
  | interface
  | union
  | enum
  | enumValue
  | inputObject
  | inputFieldDefinition
  deriving DecidableEq, Repr

def DirectiveLocation.keyword : DirectiveLocation → String
  | query => "QUERY"
  | mutation => "MUTATION"
  | subscription => "SUBSCRIPTION"
  | field => "FIELD"
  | fragmentDefinition => "FRAGMENT_DEFINITION"
  | fragmentSpread => "FRAGMENT_SPREAD"
  | inlineFragment => "INLINE_FRAGMENT"
  | variableDefinition => "VARIABLE_DEFINITION"
  | schema => "SCHEMA"
  | scalar => "SCALAR"
  | object => "OBJECT"
  | fieldDefinition => "FIELD_DEFINITION"
  | argumentDefinition => "ARGUMENT_DEFINITION"
  | interface => "INTERFACE"
  | union => "UNION"
  | enum => "ENUM"
  | enumValue => "ENUM_VALUE"
  | inputObject => "INPUT_OBJECT"
  | inputFieldDefinition => "INPUT_FIELD_DEFINITION"

/-- A directive applied to something, with the values supplied there. -/
structure DirectiveUsage where
  directive : String
  arguments : List (String × Value)
  deriving Inhabited, Repr

/-- An argument of a field or directive, or a field of an input object. -/
structure Argument where
  name : String
  description : Option String
  type : TypeRef
  default : Option Value
  usages : List DirectiveUsage
  deriving Inhabited, Repr

/-- An output field of an object or interface. -/
structure Field where
  name : String
  description : Option String
  type : TypeRef
  arguments : List Argument
  usages : List DirectiveUsage
  deriving Inhabited, Repr

structure EnumItem where
  name : String
  description : Option String
  usages : List DirectiveUsage
  deriving Inhabited, Repr

/-- What a type declaration of each kind consists of. -/
inductive TypeBody where
  | object (interfaces : List String) (fields : List Field)
  | interface (interfaces : List String) (fields : List Field)
  | union (members : List String)
  | inputObject (fields : List Argument)
  | scalar
  | enum (items : List EnumItem)
  deriving Inhabited, Repr

namespace TypeBody

def kind : TypeBody → TypeKind
  | object .. => .object
  | interface .. => .interface
  | union _ => .union
  | inputObject _ => .inputObject
  | scalar => .scalar
  | enum _ => .enum

/-- A body of the given kind with those of the members that this kind has. -/
def ofMembers (kind : TypeKind) (interfaces : List String) (fields : List Field)
    (inputFields : List Argument) (members : List String) (items : List EnumItem) : TypeBody :=
  match kind with
  | .object => object interfaces fields
  | .interface => interface interfaces fields
  | .union => union members
  | .inputObject => inputObject inputFields
  | .scalar => scalar
  | .enum => enum items

/-- A body with the members of another one of its kind behind its own. -/
def extend : TypeBody → TypeBody → TypeBody
  | object interfaces fields, object moreInterfaces moreFields =>
    object (interfaces ++ moreInterfaces) (fields ++ moreFields)
  | interface interfaces fields, interface moreInterfaces moreFields =>
    interface (interfaces ++ moreInterfaces) (fields ++ moreFields)
  | union members, union more => union (members ++ more)
  | inputObject fields, inputObject more => inputObject (fields ++ more)
  | enum items, enum more => enum (items ++ more)
  | body, _ => body

end TypeBody

structure TypeDefinition where
  name : String
  description : Option String
  origin : Origin
  usages : List DirectiveUsage
  body : TypeBody
  deriving Repr

namespace TypeDefinition

def kind (definition : TypeDefinition) : TypeKind :=
  definition.body.kind

/-- The interfaces a type declares itself; none for kinds that cannot implement any. -/
def interfaces (definition : TypeDefinition) : List String :=
  match definition.body with
  | .object interfaces _ | .interface interfaces _ => interfaces
  | _ => []

def isBuiltIn (definition : TypeDefinition) : Bool :=
  definition.origin == .builtIn

/-- A type that has taken up the usages and members of an extension. -/
def extendWith (definition extension : TypeDefinition) : TypeDefinition :=
  { definition with
    usages := definition.usages ++ extension.usages
    body := definition.body.extend extension.body }

end TypeDefinition

structure DirectiveDefinition where
  name : String
  description : Option String
  origin : Origin
  arguments : List Argument
  repeatable : Bool
  locations : List DirectiveLocation
  deriving Repr

namespace DirectiveDefinition

def argument? (definition : DirectiveDefinition) (name : String) : Option Argument :=
  definition.arguments.find? (·.name == name)

def isBuiltIn (definition : DirectiveDefinition) : Bool :=
  definition.origin == .builtIn

end DirectiveDefinition

/-- An empty description counts as none. -/
def isDescribed (description : Option String) : Bool :=
  match description with
  | none => false
  | some text => !text.isEmpty

end GraphqlReference
