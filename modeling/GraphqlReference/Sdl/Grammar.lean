import GraphqlReference.Schema.Error
import GraphqlReference.Sdl.ConstValue

namespace GraphqlReference.Sdl

open Text

/-- Where the name of a directive definition and its first location stand, as the number of
characters from there to the end of the document. -/
structure DirectivePlaces where
  name : Nat
  location : Nat
  deriving DecidableEq, Repr

/-- A definition with its values as they are written. An extending one adds to what others define. A
directive definition tells whether the keyword for repeatable directives has been read in it. -/
inductive WrittenDefinition where
  | schema (extending : Bool) (usages : List DirectiveUsage) (roots : List (Operation × String))
  | type (extending : Bool) (definition : TypeDefinition)
  | directive (definition : DirectiveDefinition) (places : DirectivePlaces)
  deriving Repr

/-- The application of a directive, with all its arguments as they are written. -/
def usage : Reader DirectiveUsage := fun text => do
  let ((), rest) ← keyword "@" text
  let (directive, rest) ← name rest
  let (arguments, rest) := optional (enclosed "(" ")" (namedValue value)) rest
  some (⟨directive, arguments.getD []⟩, rest)

def defaultValue : Reader Value := fun text => do
  let ((), rest) ← keyword "=" text
  value rest

/-- An argument of a field or directive, or a field of an input object. -/
def argument : Reader Argument := fun text => do
  let (description, rest) := optional string text
  let (name, rest) ← name rest
  let ((), rest) ← keyword ":" rest
  let (type, rest) ← typeRef rest
  let (default, rest) := optional defaultValue rest
  let (usages, rest) := many usage rest
  some (⟨name, description, type, default, usages⟩, rest)

/-- The arguments of a field or directive; none at all without parentheses. -/
def arguments (text : List Char) : List Argument × List Char :=
  let (found, rest) := optional (enclosed "(" ")" argument) text
  (found.getD [], rest)

def field : Reader Field := fun text => do
  let (description, rest) := optional string text
  let (name, rest) ← name rest
  let (arguments, rest) := arguments rest
  let ((), rest) ← keyword ":" rest
  let (type, rest) ← typeRef rest
  let (usages, rest) := many usage rest
  some (⟨name, description, type, arguments, usages⟩, rest)

def enumItem : Reader EnumItem := fun text => do
  let (description, rest) := optional string text
  let (name, rest) ← enumName rest
  let (usages, rest) := many usage rest
  some (⟨name, description, usages⟩, rest)

def interfaceNames : Reader (List String) := fun text => do
  let ((), rest) ← keyword "implements" text
  separated "&" name rest

def unionMembers : Reader (List String) := fun text => do
  let ((), rest) ← keyword "=" text
  separated "|" name rest

/-- The members of a type of the given kind, with the interfaces that have been read before. A
scalar has no members. -/
def body (kind : TypeKind) (interfaces : List String) : Reader TypeBody := fun text =>
  match kind with
  | .object =>
    (enclosed "\x7b" "\x7d" field text).map fun (fields, rest) => (.object interfaces fields, rest)
  | .interface =>
    (enclosed "\x7b" "\x7d" field text).map fun (fields, rest) =>
      (.interface interfaces fields, rest)
  | .union => (unionMembers text).map fun (members, rest) => (.union members, rest)
  | .inputObject =>
    (enclosed "\x7b" "\x7d" argument text).map fun (fields, rest) => (.inputObject fields, rest)
  | .scalar => none
  | .enum => (enclosed "\x7b" "\x7d" enumItem text).map fun (items, rest) => (.enum items, rest)

/-- A type of the given kind without members. -/
def emptyBody (kind : TypeKind) (interfaces : List String) : TypeBody :=
  .ofMembers kind interfaces [] [] [] []

/-- The interfaces that a type of the given kind names; only objects and interfaces can do so. -/
def implementing (kind : TypeKind) (text : List Char) : Option (List String) × List Char :=
  if kind = .object ∨ kind = .interface then optional interfaceNames text else (none, text)

/-- The definition of a type of the given kind. All that follows its name may be missing. -/
def typeDefinition (kind : TypeKind) : Reader WrittenDefinition := fun text => do
  let (description, rest) := optional string text
  let ((), rest) ← keyword kind.keyword rest
  let (name, rest) ← name rest
  let (interfaces, rest) := implementing kind rest
  let (usages, rest) := many usage rest
  let (members, rest) := optional (body kind (interfaces.getD [])) rest
  let members := members.getD (emptyBody kind (interfaces.getD []))
  some (.type false ⟨name, description, .user, usages, members⟩, rest)

/-- The extension of a type of the given kind. It adds members or directives; that of an object may
add interfaces alone. -/
def typeExtension (kind : TypeKind) : Reader WrittenDefinition := fun text => do
  let ((), rest) ← keyword "extend" text
  let ((), rest) ← keyword kind.keyword rest
  let (name, rest) ← name rest
  let (interfaces, behindInterfaces) := implementing kind rest
  let (usages, behindUsages) := many usage behindInterfaces
  let extension (members : TypeBody) : WrittenDefinition :=
    .type true ⟨name, none, .user, usages, members⟩
  match body kind (interfaces.getD []) behindUsages with
  | some (members, rest) => some (extension members, rest)
  | none =>
    if !usages.isEmpty ∨ (kind = .object ∧ interfaces.isSome) then
      some (extension (emptyBody kind (interfaces.getD [])), behindUsages)
    else none

def operation : Reader Operation := fun text =>
  [Operation.query, .mutation, .subscription].findSome? fun operation =>
    (keyword operation.keyword text).map fun ((), rest) => (operation, rest)

/-- An operation with the name of its root type. -/
def root : Reader (Operation × String) := fun text => do
  let (operation, rest) ← operation text
  let ((), rest) ← keyword ":" rest
  let (name, rest) ← name rest
  some ((operation, name), rest)

def roots : Reader (List (Operation × String)) :=
  enclosed "\x7b" "\x7d" root

def schemaDefinition : Reader WrittenDefinition := fun text => do
  let ((), rest) ← keyword "schema" text
  let (usages, rest) := many usage rest
  let (roots, rest) ← roots rest
  some (.schema false usages roots, rest)

/-- The extension of a schema. It adds root types or directives. -/
def schemaExtension : Reader WrittenDefinition := fun text => do
  let ((), rest) ← keyword "extend" text
  let ((), rest) ← keyword "schema" rest
  let (usages, rest) := many usage rest
  match roots rest with
  | some (roots, rest) => some (.schema true usages roots, rest)
  | none => if usages.isEmpty then none else some (.schema true usages [], rest)

/-- All locations, each before those whose keyword begins its own. -/
def locationsInOrder : List DirectiveLocation :=
  [ .query, .mutation, .subscription, .fieldDefinition, .field, .fragmentDefinition
  , .fragmentSpread, .inlineFragment, .variableDefinition, .schema, .scalar, .object
  , .argumentDefinition, .interface, .union, .enumValue, .enum, .inputObject
  , .inputFieldDefinition ]

def location : Reader DirectiveLocation := fun text =>
  locationsInOrder.findSome? fun location =>
    (keyword location.keyword text).map fun ((), rest) => (location, rest)

/-- The text at which the first location of a directive definition begins. -/
def firstLocationText (text : List Char) : List Char :=
  skip (optional (keyword "|") text).2

def directiveDefinition : Reader WrittenDefinition := fun text => do
  let (description, rest) := optional string text
  let ((), rest) ← keyword "directive" rest
  let ((), atName) ← keyword "@" rest
  let (name, rest) ← name atName
  let (arguments, rest) := arguments rest
  let (repeatable, rest) := optional (keyword "repeatable") rest
  let ((), atLocations) ← keyword "on" rest
  let (locations, rest) ← separated "|" location atLocations
  let places := ⟨(skip atName).length, (firstLocationText atLocations).length⟩
  some (.directive ⟨name, description, .user, arguments, repeatable.isSome, locations⟩ places, rest)

def typeKinds : List TypeKind :=
  [.scalar, .object, .interface, .union, .enum, .inputObject]

def definition : Reader WrittenDefinition := fun text =>
  schemaDefinition text <|> schemaExtension text <|>
  typeKinds.findSome? (fun kind => typeDefinition kind text <|> typeExtension kind text) <|>
  directiveDefinition text

/-- The definitions of a document, of which there is one at least. -/
def definitions? (source : List Char) : Option (List WrittenDefinition) :=
  match some1 definition source with
  | some (definitions, rest) => if (skip rest).isEmpty then some definitions else none
  | none => none

end GraphqlReference.Sdl
