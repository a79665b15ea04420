import GraphqlReference.Schema
import GraphqlReference.Schema.BuiltIn

namespace GraphqlReference

/-!
A schema under construction. It begins with the built-in declarations, and no name is ever
declared twice in it.
-/

/-- The root types that have been named so far. -/
structure Roots where
  query : Option String
  mutation : Option String
  subscription : Option String
  deriving DecidableEq, Repr

namespace Roots

def empty : Roots := ⟨none, none, none⟩

def get (roots : Roots) : Operation → Option String
  | .query => roots.query
  | .mutation => roots.mutation
  | .subscription => roots.subscription

def set (roots : Roots) (operation : Operation) (name : String) : Roots :=
  match operation with
  | .query => { roots with query := some name }
  | .mutation => { roots with mutation := some name }
  | .subscription => { roots with subscription := some name }

/-- The roots of the second, and those of the first for operations that the second leaves out. -/
def override (roots newer : Roots) : Roots where
  query := newer.query <|> roots.query
  mutation := newer.mutation <|> roots.mutation
  subscription := newer.subscription <|> roots.subscription

end Roots

/-- With explicit roots the named root types are all there are; otherwise types of the
conventional names fill the gaps. Types and directives stand under the names that they have been
declared with. -/
structure SchemaBuilder where
  description : Option String
  roots : Roots
  explicitRoots : Bool
  usages : List DirectiveUsage
  types : List (String × TypeDefinition)
  directives : List (String × DirectiveDefinition)
  deriving Repr

/-- An action on a schema under construction. It leaves a builder also where it fails. -/
abbrev Building := EStateM SchemaError SchemaBuilder

namespace SchemaBuilder

def new : SchemaBuilder where
  description := none
  roots := .empty
  explicitRoots := false
  usages := []
  types := keyed TypeDefinition.name BuiltIn.scalars
  directives := keyed DirectiveDefinition.name BuiltIn.directives

def setDescription (builder : SchemaBuilder) (text : String) : SchemaBuilder :=
  { builder with description := some text }

def setRoot (builder : SchemaBuilder) (operation : Operation) (name : String) : SchemaBuilder :=
  { builder with roots := builder.roots.set operation name }

def useExplicitRoots (builder : SchemaBuilder) : SchemaBuilder :=
  { builder with explicitRoots := true }

def addUsage (builder : SchemaBuilder) (usage : DirectiveUsage) : SchemaBuilder :=
  { builder with usages := builder.usages ++ [usage] }

def type? (builder : SchemaBuilder) (name : String) : Option TypeDefinition :=
  builder.types.lookup name

def directive? (builder : SchemaBuilder) (name : String) : Option DirectiveDefinition :=
  builder.directives.lookup name

/-- Declares a type. Declaring a built-in type again, with its kind, changes nothing. -/
def declareType (definition : TypeDefinition) : Building Unit := do
  match (← get).type? definition.name with
  | some existing =>
    if existing.isBuiltIn && existing.kind == definition.kind then pure ()
    else throw (.duplicateType definition.name)
  | none =>
    modify fun builder =>
      { builder with types := setNamed builder.types definition.name definition }

/-- Declares a directive. Declaring a built-in directive again changes nothing. -/
def declareDirective (definition : DirectiveDefinition) : Building Unit := do
  match (← get).directive? definition.name with
  | some existing =>
    if existing.isBuiltIn then pure () else throw (.duplicateDirective definition.name)
  | none =>
    modify fun builder =>
      { builder with directives := setNamed builder.directives definition.name definition }

/-- The builder that an action leads to, if it does not fail. -/
def after (builder : SchemaBuilder) (action : Building Unit) : Except SchemaError SchemaBuilder :=
  match action builder with
  | .ok _ next => .ok next
  | .error fault _ => .error fault

def addType (builder : SchemaBuilder) (definition : TypeDefinition) :
    Except SchemaError SchemaBuilder :=
  builder.after (declareType definition)

def addDirective (builder : SchemaBuilder) (definition : DirectiveDefinition) :
    Except SchemaError SchemaBuilder :=
  builder.after (declareDirective definition)

/-- Adds usages and members to a declared type of the same kind. -/
def extendType (builder : SchemaBuilder) (extension : TypeDefinition) :
    Except SchemaError SchemaBuilder :=
  match builder.type? extension.name with
  | none => .error (.unknownExtension extension.name)
  | some base =>
    if base.kind = extension.kind then
      .ok { builder with
        types := changeNamed builder.types extension.name (·.extendWith extension) }
    else .error (.extensionKindMismatch extension.name base.kind extension.kind)

/-- The root type of an operation: the named one, else the one of the conventional name, if that
type is declared and roots are not explicit. -/
def root? (builder : SchemaBuilder) (operation : Operation) : Option String :=
  match builder.roots.get operation with
  | some name => some name
  | none =>
    let conventional := operation.conventionalRoot
    if !builder.explicitRoots && (builder.type? conventional).isSome then some conventional
    else none

def build (builder : SchemaBuilder) : Except SchemaError Schema :=
  match builder.root? .query with
  | none => .error .missingQueryType
  | some query =>
    .ok
      { description := builder.description
        query
        mutation := builder.root? .mutation
        subscription := builder.root? .subscription
        usages := builder.usages
        types := builder.types.map Prod.snd
        directives := builder.directives.map Prod.snd }

end SchemaBuilder

end GraphqlReference
