import GraphqlReference.Schema

namespace GraphqlReference

/-!
What the parts of a schema refer to, and when the schema has all of it. The references of a part are
collected, so that each demand on them is told once for all places in which they can occur.
-/

namespace Value

mutual

/-- The floating-point numbers in a value, at any depth. -/
def numbers : Value → List Binary64
  | .float number => [number]
  | .list items => itemNumbers items
  | .object fields => fieldNumbers fields
  | _ => []

def itemNumbers : List Value → List Binary64
  | [] => []
  | item :: rest => numbers item ++ itemNumbers rest

def fieldNumbers : List (String × Value) → List Binary64
  | [] => []
  | (_, value) :: rest => numbers value ++ fieldNumbers rest

end

/-- No number in a value is infinite or not a number. -/
def IsFinite (value : Value) : Prop :=
  ∀ number ∈ value.numbers, number.isFinite = true

end Value

namespace TypeRef

/-- A reference and all references under its modifiers. -/
def layers : TypeRef → List TypeRef
  | .named name => [.named name]
  | .nonNull inner => .nonNull inner :: inner.layers
  | .list inner => .list inner :: inner.layers

/-- No non-null modifier stands directly inside another one. -/
def IsWritable (type : TypeRef) : Prop :=
  ∀ inner, .nonNull (.nonNull inner) ∉ type.layers

end TypeRef

/-- What a part of a schema refers to or holds: types by name alone, types of members, the
interfaces it declares, directives, and default values. -/
structure References where
  names : List String := []
  types : List TypeRef := []
  interfaces : List String := []
  usages : List DirectiveUsage := []
  defaults : List Value := []

namespace References

instance : Append References where
  append first second :=
    { names := first.names ++ second.names
      types := first.types ++ second.types
      interfaces := first.interfaces ++ second.interfaces
      usages := first.usages ++ second.usages
      defaults := first.defaults ++ second.defaults }

def collect {α : Type} (references : α → References) (items : List α) : References :=
  items.foldr (fun item rest => references item ++ rest) {}

variable {first second whole : References}

/-- What one part of a schema refers to is among what another one refers to. -/
structure Within (part whole : References) : Prop where
  names : part.names ⊆ whole.names
  types : part.types ⊆ whole.types
  interfaces : part.interfaces ⊆ whole.interfaces
  usages : part.usages ⊆ whole.usages
  defaults : part.defaults ⊆ whole.defaults

theorem Within.refl (references : References) : references.Within references :=
  ⟨.refl _, .refl _, .refl _, .refl _, .refl _⟩

theorem Within.of_append
    (within : (first ++ second).Within whole) : first.Within whole ∧ second.Within whole := by
  obtain ⟨names, types, interfaces, usages, defaults⟩ := within
  obtain ⟨names, names'⟩ := List.append_subset.mp names
  obtain ⟨types, types'⟩ := List.append_subset.mp types
  obtain ⟨interfaces, interfaces'⟩ := List.append_subset.mp interfaces
  obtain ⟨usages, usages'⟩ := List.append_subset.mp usages
  obtain ⟨defaults, defaults'⟩ := List.append_subset.mp defaults
  exact ⟨⟨names, types, interfaces, usages, defaults⟩,
    ⟨names', types', interfaces', usages', defaults'⟩⟩

theorem Within.of_collect {α : Type} {references : α → References} {items : List α}
    (within : (collect references items).Within whole) :
    ∀ item ∈ items, (references item).Within whole := by
  induction items with
  | nil => exact fun _ member => absurd member List.not_mem_nil
  | cons item rest ih =>
      obtain ⟨here, later⟩ := Within.of_append within
      exact List.forall_mem_cons.mpr ⟨here, ih later⟩

end References

def Argument.references (argument : Argument) : References :=
  { types := [argument.type], usages := argument.usages, defaults := argument.default.toList }

def Field.references (field : Field) : References :=
  { types := [field.type], usages := field.usages } ++
    .collect Argument.references field.arguments

def EnumItem.references (item : EnumItem) : References :=
  { usages := item.usages }

def TypeBody.references : TypeBody → References
  | .object interfaces fields | .interface interfaces fields =>
    { interfaces } ++ .collect Field.references fields
  | .union members => { names := members }
  | .inputObject fields => .collect Argument.references fields
  | .scalar => {}
  | .enum items => .collect EnumItem.references items

def TypeDefinition.references (definition : TypeDefinition) : References :=
  { usages := definition.usages } ++ definition.body.references

def DirectiveDefinition.references (definition : DirectiveDefinition) : References :=
  .collect Argument.references definition.arguments

namespace Schema

variable (schema : Schema)

/-- The references of a schema that belong to none of its declarations. -/
def ownReferences : References :=
  { names := schema.query :: (schema.mutation.toList ++ schema.subscription.toList)
    usages := schema.usages }

/-- All that a schema refers to, as a whole and in its declarations. -/
def references : References :=
  schema.ownReferences ++ (.collect TypeDefinition.references schema.types ++
    .collect DirectiveDefinition.references schema.directives)

def HasType (name : String) : Prop :=
  (schema.type? name).isSome = true

/-- The names that declared interfaces bring with them: their own ones, and those that the types of
these names declare in their turn. -/
inductive Brings (interfaces : List String) : String → Prop
  | declared {name : String} : name ∈ interfaces → Brings interfaces name
  | inherited {outer name : String} {definition : TypeDefinition} : Brings interfaces outer →
      schema.type? outer = some definition → name ∈ definition.interfaces → Brings interfaces name

/-- A type is referred to by its name alone, under modifiers, or through interfaces. -/
inductive Mentions (references : References) (name : String) : Prop
  | alone : name ∈ references.names → Mentions references name
  | modified {type : TypeRef} : type ∈ references.types → type.innermost = name →
      Mentions references name
  | brought : schema.Brings references.interfaces name → Mentions references name

/-- The directive declares an argument of this name, and the supplied value can be shown, unless it
is the declared default. -/
def AcceptsArgument (definition : DirectiveDefinition) (name : String) (value : Value) : Prop :=
  ∃ argument, definition.argument? name = some argument ∧
    ((∀ default ∈ argument.default, default.sameAs value = false) → value.IsFinite)

/-- There is a directive of this name, which accepts all supplied arguments. -/
def AcceptsUsage (usage : DirectiveUsage) : Prop :=
  ∃ definition, schema.directive? usage.directive = some definition ∧
    ∀ entry ∈ usage.arguments, AcceptsArgument definition entry.1 entry.2

/-- The schema has everything that is referred to, and all values and types can be written. -/
structure Resolves (references : References) : Prop where
  names : ∀ name ∈ references.names, schema.HasType name
  types : ∀ type ∈ references.types, schema.HasType type.innermost
  writable : ∀ type ∈ references.types, type.IsWritable
  interfaces : ∀ name, schema.Brings references.interfaces name → schema.HasType name
  usages : ∀ usage ∈ references.usages, schema.AcceptsUsage usage
  defaults : ∀ default ∈ references.defaults, default.IsFinite

section

variable {schema} {first second : References} {name : String}

theorem not_brings_nil : ¬ schema.Brings [] name := by
  intro brings
  induction brings with
  | declared member => exact absurd member List.not_mem_nil
  | inherited _ _ _ ih => exact ih

theorem Brings.mono {interfaces interfaces' : List String}
    (among : interfaces ⊆ interfaces') (brings : schema.Brings interfaces name) :
    schema.Brings interfaces' name := by
  induction brings with
  | declared member => exact .declared (among member)
  | inherited _ found member ih => exact .inherited ih found member

theorem brings_append {interfaces interfaces' : List String} :
    schema.Brings (interfaces ++ interfaces') name ↔
      schema.Brings interfaces name ∨ schema.Brings interfaces' name := by
  constructor
  · intro brings
    induction brings with
    | declared member =>
        exact (List.mem_append.mp member).imp .declared .declared
    | inherited _ found member ih =>
        exact ih.imp (fun brings => .inherited brings found member)
          (fun brings => .inherited brings found member)
  · rintro (brings | brings)
    · exact brings.mono (List.subset_append_left _ _)
    · exact brings.mono (List.subset_append_right _ _)

theorem resolves_nothing : schema.Resolves {} where
  names _ member := absurd member List.not_mem_nil
  types _ member := absurd member List.not_mem_nil
  writable _ member := absurd member List.not_mem_nil
  interfaces _ brings := absurd brings not_brings_nil
  usages _ member := absurd member List.not_mem_nil
  defaults _ member := absurd member List.not_mem_nil

theorem resolves_append :
    schema.Resolves (first ++ second) ↔ schema.Resolves first ∧ schema.Resolves second := by
  constructor
  · intro ⟨names, types, writable, interfaces, usages, defaults⟩
    obtain ⟨names, names'⟩ := List.forall_mem_append.mp names
    obtain ⟨types, types'⟩ := List.forall_mem_append.mp types
    obtain ⟨writable, writable'⟩ := List.forall_mem_append.mp writable
    obtain ⟨usages, usages'⟩ := List.forall_mem_append.mp usages
    obtain ⟨defaults, defaults'⟩ := List.forall_mem_append.mp defaults
    exact
      ⟨⟨names, types, writable, fun name brings =>
        interfaces name (brings_append.mpr (.inl brings)), usages, defaults⟩,
      ⟨names', types', writable', fun name brings =>
        interfaces name (brings_append.mpr (.inr brings)), usages', defaults'⟩⟩
  · intro ⟨resolves, resolves'⟩
    exact
      { names := List.forall_mem_append.mpr ⟨resolves.names, resolves'.names⟩
        types := List.forall_mem_append.mpr ⟨resolves.types, resolves'.types⟩
        writable := List.forall_mem_append.mpr ⟨resolves.writable, resolves'.writable⟩
        interfaces := fun name brings =>
          (brings_append.mp brings).elim (resolves.interfaces name) (resolves'.interfaces name)
        usages := List.forall_mem_append.mpr ⟨resolves.usages, resolves'.usages⟩
        defaults := List.forall_mem_append.mpr ⟨resolves.defaults, resolves'.defaults⟩ }

theorem resolves_collect {α : Type} {references : α → References} {items : List α} :
    schema.Resolves (.collect references items) ↔
      ∀ item ∈ items, schema.Resolves (references item) := by
  induction items with
  | nil => exact iff_of_true resolves_nothing fun _ member => absurd member List.not_mem_nil
  | cons item rest ih =>
      rw [References.collect, List.foldr_cons, resolves_append, List.forall_mem_cons]
      exact and_congr_right fun _ => ih

theorem resolves_usages {usages : List DirectiveUsage} :
    schema.Resolves { usages } ↔ ∀ usage ∈ usages, schema.AcceptsUsage usage :=
  ⟨Resolves.usages, fun accepts => { resolves_nothing with usages := accepts }⟩

theorem resolves_ownReferences :
    schema.Resolves schema.ownReferences ↔
      (∀ usage ∈ schema.usages, schema.AcceptsUsage usage) ∧ schema.HasType schema.query ∧
        (∀ name ∈ schema.mutation.toList, schema.HasType name) ∧
          ∀ name ∈ schema.subscription.toList, schema.HasType name := by
  rw [← List.forall_mem_append, ← List.forall_mem_cons]
  exact ⟨fun resolves => ⟨resolves.usages, resolves.names⟩,
    fun ⟨usages, names⟩ => { resolves_nothing with names, usages }⟩

theorem resolves_names {names : List String} :
    schema.Resolves { names } ↔ ∀ name ∈ names, schema.HasType name :=
  ⟨Resolves.names, fun known => { resolves_nothing with names := known }⟩

theorem resolves_member {type : TypeRef} {usages : List DirectiveUsage} {defaults : List Value} :
    schema.Resolves { types := [type], usages, defaults } ↔
      (schema.HasType type.innermost ∧ type.IsWritable) ∧
        (∀ usage ∈ usages, schema.AcceptsUsage usage) ∧ ∀ default ∈ defaults, default.IsFinite := by
  constructor
  · intro resolves
    exact ⟨⟨resolves.types type List.mem_cons_self, resolves.writable type List.mem_cons_self⟩,
      resolves.usages, resolves.defaults⟩
  · intro ⟨⟨known, writable⟩, usages, defaults⟩
    exact
      { resolves_nothing with
        types := List.forall_mem_singleton.mpr known
        writable := List.forall_mem_singleton.mpr writable
        usages
        defaults }

theorem resolves_interfaces {interfaces : List String} :
    schema.Resolves { interfaces } ↔
      ∀ name, schema.Brings interfaces name → schema.HasType name :=
  ⟨Resolves.interfaces, fun known => { resolves_nothing with interfaces := known }⟩

end

end Schema

end GraphqlReference
