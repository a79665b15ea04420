import GraphqlReference.Schema.Definition

namespace GraphqlReference.Sdl

/-!
What written values stand for, wherever they occur in a definition. All numbers in them have to be
finite, those included that a repeated name takes back; and each name is kept once, at its first
place and with its last value.
-/

mutual

/-- The value that a written one stands for. -/
def resolveValue : Value → Option Value
  | .float number => if number.isFinite then some (.float number) else none
  | .list items => (resolveItems items).map .list
  | .object fields => (resolveFields fields).map fun fields => .object (collectNamed fields)
  | value => some value

def resolveItems : List Value → Option (List Value)
  | [] => some []
  | item :: rest => do
    let item ← resolveValue item
    let rest ← resolveItems rest
    some (item :: rest)

/-- The values of named ones; repeated names are still there. -/
def resolveFields : List (String × Value) → Option (List (String × Value))
  | [] => some []
  | (name, value) :: rest => do
    let value ← resolveValue value
    let rest ← resolveFields rest
    some ((name, value) :: rest)

end

def resolveUsage (usage : DirectiveUsage) : Option DirectiveUsage := do
  let arguments ← resolveFields usage.arguments
  some { usage with arguments := collectNamed arguments }

def resolveUsages (usages : List DirectiveUsage) : Option (List DirectiveUsage) :=
  usages.mapM resolveUsage

def resolveDefault : Option Value → Option (Option Value)
  | none => some none
  | some value => (resolveValue value).map some

def resolveArgument (argument : Argument) : Option Argument := do
  let default ← resolveDefault argument.default
  let usages ← resolveUsages argument.usages
  some { argument with default, usages }

def resolveField (field : Field) : Option Field := do
  let arguments ← field.arguments.mapM resolveArgument
  let usages ← resolveUsages field.usages
  some { field with arguments, usages }

def resolveItem (item : EnumItem) : Option EnumItem := do
  let usages ← resolveUsages item.usages
  some { item with usages }

def resolveBody : TypeBody → Option TypeBody
  | .object interfaces fields => (fields.mapM resolveField).map (.object interfaces)
  | .interface interfaces fields => (fields.mapM resolveField).map (.interface interfaces)
  | .inputObject fields => (fields.mapM resolveArgument).map .inputObject
  | .enum items => (items.mapM resolveItem).map .enum
  | .union members => some (.union members)
  | .scalar => some .scalar

def resolveType (definition : TypeDefinition) : Option TypeDefinition := do
  let usages ← resolveUsages definition.usages
  let body ← resolveBody definition.body
  some { definition with usages, body }

end GraphqlReference.Sdl
