import Mathlib.Data.List.Forall2
import Mathlib.Data.Option.Basic
import GraphqlReference.Proofs.Schema.Defaults

namespace GraphqlReference

/-- Which descriptions, and which usages, may stand for one another. -/
structure Likeness where
  described : Option String → Option String → Prop
  used : DirectiveUsage → DirectiveUsage → Prop
  described_refl (description : Option String) : described description description
  used_refl (use : DirectiveUsage) : used use use

structure Argument.Like (likeness : Likeness) (argument argument' : Argument) : Prop where
  name : argument.name = argument'.name
  description : likeness.described argument.description argument'.description
  type : argument.type = argument'.type
  default : argument.default = argument'.default
  usages : List.Forall₂ likeness.used argument.usages argument'.usages

structure Field.Like (likeness : Likeness) (field field' : Field) : Prop where
  name : field.name = field'.name
  description : likeness.described field.description field'.description
  type : field.type = field'.type
  arguments : List.Forall₂ (Argument.Like likeness) field.arguments field'.arguments
  usages : List.Forall₂ likeness.used field.usages field'.usages

structure EnumItem.Like (likeness : Likeness) (item item' : EnumItem) : Prop where
  name : item.name = item'.name
  description : likeness.described item.description item'.description
  usages : List.Forall₂ likeness.used item.usages item'.usages

inductive TypeBody.Like (likeness : Likeness) : TypeBody → TypeBody → Prop
  | object (interfaces : List String) {fields fields' : List Field} :
      List.Forall₂ (Field.Like likeness) fields fields' →
      Like likeness (.object interfaces fields) (.object interfaces fields')
  | interface (interfaces : List String) {fields fields' : List Field} :
      List.Forall₂ (Field.Like likeness) fields fields' →
      Like likeness (.interface interfaces fields) (.interface interfaces fields')
  | union (members : List String) : Like likeness (.union members) (.union members)
  | inputObject {fields fields' : List Argument} :
      List.Forall₂ (Argument.Like likeness) fields fields' →
      Like likeness (.inputObject fields) (.inputObject fields')
  | scalar : Like likeness .scalar .scalar
  | enum {items items' : List EnumItem} : List.Forall₂ (EnumItem.Like likeness) items items' →
      Like likeness (.enum items) (.enum items')

structure TypeDefinition.Like (likeness : Likeness) (definition definition' : TypeDefinition) :
    Prop where
  name : definition.name = definition'.name
  description : likeness.described definition.description definition'.description
  origin : definition.origin = definition'.origin
  usages : List.Forall₂ likeness.used definition.usages definition'.usages
  body : definition.body.Like likeness definition'.body

structure DirectiveDefinition.Like (likeness : Likeness)
    (definition definition' : DirectiveDefinition) : Prop where
  name : definition.name = definition'.name
  description : likeness.described definition.description definition'.description
  origin : definition.origin = definition'.origin
  arguments : List.Forall₂ (Argument.Like likeness) definition.arguments definition'.arguments
  repeatable : definition.repeatable = definition'.repeatable
  locations : definition.locations = definition'.locations

structure Schema.Like (likeness : Likeness) (schema schema' : Schema) : Prop where
  description : likeness.described schema.description schema'.description
  query : schema.query = schema'.query
  mutation : schema.mutation = schema'.mutation
  subscription : schema.subscription = schema'.subscription
  usages : List.Forall₂ likeness.used schema.usages schema'.usages
  types : List.Forall₂ (TypeDefinition.Like likeness) schema.types schema'.types
  directives : List.Forall₂ (DirectiveDefinition.Like likeness) schema.directives
    schema'.directives

section

variable {likeness : Likeness}

theorem Likeness.usages_refl (list : List DirectiveUsage) :
    List.Forall₂ likeness.used list list :=
  List.forall₂_same.mpr fun use _ => likeness.used_refl use

theorem Argument.Like.refl_list (arguments : List Argument) :
    List.Forall₂ (Argument.Like likeness) arguments arguments :=
  List.forall₂_same.mpr fun _ _ =>
    ⟨rfl, likeness.described_refl _, rfl, rfl, likeness.usages_refl _⟩

theorem TypeBody.Like.refl (body : TypeBody) : body.Like likeness body := by
  have fields : ∀ fields : List Field, List.Forall₂ (Field.Like likeness) fields fields :=
    fun _ => List.forall₂_same.mpr fun _ _ =>
      ⟨rfl, likeness.described_refl _, rfl, Argument.Like.refl_list _, likeness.usages_refl _⟩
  cases body with
  | object interfaces own => exact .object interfaces (fields own)
  | interface interfaces own => exact .interface interfaces (fields own)
  | union members => exact .union members
  | inputObject own => exact .inputObject (Argument.Like.refl_list own)
  | scalar => exact .scalar
  | enum items =>
      exact .enum (List.forall₂_same.mpr fun _ _ =>
        ⟨rfl, likeness.described_refl _, likeness.usages_refl _⟩)

theorem TypeDefinition.Like.refl (definition : TypeDefinition) :
    definition.Like likeness definition :=
  ⟨rfl, likeness.described_refl _, rfl, likeness.usages_refl _, .refl _⟩

theorem DirectiveDefinition.Like.refl (definition : DirectiveDefinition) :
    definition.Like likeness definition :=
  ⟨rfl, likeness.described_refl _, rfl, Argument.Like.refl_list _, rfl, rfl⟩

end

theorem find?_related {α β : Type} {related : α → β → Prop} {name : α → String} {name' : β → String}
    (named : ∀ item item', related item item' → name item = name' item') (key : String)
    {items : List α} {items' : List β} (all : List.Forall₂ related items items') :
    Option.Rel related (items.find? (name · == key)) (items'.find? (name' · == key)) := by
  induction all with
  | nil => exact .none
  | cons here _ ih =>
      rw [List.find?_cons, List.find?_cons, named _ _ here]
      split
      · exact .some here
      · exact ih

theorem found_related {α : Type} {related : α → α → Prop} (refl : ∀ item, related item item)
    (found : Option α) : Option.Rel related found found := by
  cases found with
  | none => exact .none
  | some item => exact .some (refl item)

/-- Where two searches find related items, they agree on what these have in common. -/
theorem map_related {α β γ : Type} {related : α → β → Prop} {shared : α → γ} {shared' : β → γ}
    (same : ∀ item item', related item item' → shared item = shared' item')
    {found : Option α} {found' : Option β} (here : Option.Rel related found found') :
    found.map shared = found'.map shared' := by
  cases here with
  | none => rfl
  | some here => exact congrArg some (same _ _ here)

namespace Schema.Like

variable {likeness : Likeness} {schema schema' : Schema} (like : schema.Like likeness schema')
include like

theorem root? : schema.root? = schema'.root? := by
  funext operation
  cases operation with
  | query => exact congrArg some like.query
  | mutation => exact like.mutation
  | subscription => exact like.subscription

theorem type? (name : String) :
    Option.Rel (TypeDefinition.Like likeness) (schema.type? name) (schema'.type? name) :=
  find?_related (fun _ _ here => here.name) name like.types

theorem directive? (name : String) :
    Option.Rel (DirectiveDefinition.Like likeness) (schema.directive? name)
      (schema'.directive? name) :=
  find?_related (fun _ _ here => here.name) name like.directives

end Schema.Like

section

variable {likeness : Likeness} {definition definition' : TypeDefinition}
  (like : definition.Like likeness definition')
include like

theorem TypeDefinition.Like.kind : definition.kind = definition'.kind := by
  unfold TypeDefinition.kind
  have body := like.body
  generalize definition.body = shown, definition'.body = shown' at body
  cases body <;> rfl

theorem TypeDefinition.Like.interfaces : definition.interfaces = definition'.interfaces := by
  unfold TypeDefinition.interfaces
  have body := like.body
  generalize definition.body = shown, definition'.body = shown' at body
  cases body <;> rfl

theorem TypeDefinition.Like.isBuiltIn : definition.isBuiltIn = definition'.isBuiltIn :=
  congrArg (· == Origin.builtIn) like.origin

end

section

variable {likeness : Likeness} {definition definition' : DirectiveDefinition}
  (like : definition.Like likeness definition')
include like

theorem DirectiveDefinition.Like.isBuiltIn : definition.isBuiltIn = definition'.isBuiltIn :=
  congrArg (· == Origin.builtIn) like.origin

/-- What is declared for an argument does not depend on descriptions and usages. -/
theorem DirectiveDefinition.Like.default? (name : String) :
    (definition.argument? name).map Argument.default =
      (definition'.argument? name).map Argument.default :=
  map_related (fun _ _ here => here.default)
    (find?_related (fun _ _ here => here.name) name like.arguments)

end

/-- The text of a description, which is empty where there is none. -/
def descriptionText (description : Option String) : List Char :=
  (description.getD "").toList

/-- Both descriptions show something or none of them does, and they have as many lines. -/
structure SameShape (description description' : Option String) : Prop where
  empty : descriptionText description = [] ↔ descriptionText description' = []
  lineFeeds : (descriptionText description).count '\n' = (descriptionText description').count '\n'
  lineBreaks : ('\n' ∈ descriptionText description ∨ '\r' ∈ descriptionText description) ↔
    ('\n' ∈ descriptionText description' ∨ '\r' ∈ descriptionText description')

theorem SameShape.refl (description : Option String) : SameShape description description :=
  ⟨Iff.rfl, rfl, Iff.rfl⟩

theorem isDescribed_iff {description : Option String} :
    isDescribed description = true ↔ descriptionText description ≠ [] := by
  cases description with
  | none => simp [isDescribed, descriptionText]
  | some text =>
      simp only [isDescribed, descriptionText, Option.getD_some, Bool.not_eq_true',
        ← Bool.not_eq_true, String.isEmpty_iff, String.toList_eq_nil_iff, ne_eq]

theorem SameShape.isDescribed {description description' : Option String}
    (same : SameShape description description') :
    isDescribed description = isDescribed description' := by
  rw [Bool.eq_iff_iff, isDescribed_iff, isDescribed_iff]
  exact not_congr same.empty

/-- Descriptions of the same shape stand for one another, and all else is the same. -/
def Likeness.shapes : Likeness where
  described := SameShape
  used := (· = ·)
  described_refl := .refl
  used_refl _ := rfl

/-- The schemas differ in nothing but descriptions of the same shape. -/
abbrev Schema.Redescribed : Schema → Schema → Prop :=
  Schema.Like .shapes

/-- The second list is the first one without some of the entries that may be spared. -/
inductive Spares {α : Type} (spared : α → Prop) : List α → List α → Prop
  | nil : Spares spared [] []
  | kept (entry : α) {entries entries' : List α} : Spares spared entries entries' →
      Spares spared (entry :: entries) (entry :: entries')
  | dropped {entry : α} {entries entries' : List α} : spared entry →
      Spares spared entries entries' → Spares spared (entry :: entries) entries'

theorem Spares.refl {α : Type} {spared : α → Prop} (entries : List α) :
    Spares spared entries entries := by
  induction entries with
  | nil => exact .nil
  | cons entry _ ih => exact .kept entry ih

/-- A usage of the named directive need not supply this argument. -/
def Schema.Declares (schema : Schema) (directive : String) (entry : String × Value) : Prop :=
  ∃ definition, schema.directive? directive = some definition ∧
    definition.isDefault entry.1 entry.2 = true

structure DirectiveUsage.Thinned (schema : Schema) (use use' : DirectiveUsage) : Prop where
  directive : use.directive = use'.directive
  arguments : Spares (schema.Declares use.directive) use.arguments use'.arguments

/-- Usages stand for those that supply more of what this schema declares for their directives
anyway, and all else is the same. -/
def Likeness.thinning (schema : Schema) : Likeness where
  described := (· = ·)
  used := DirectiveUsage.Thinned schema
  described_refl _ := rfl
  used_refl _ := ⟨rfl, .refl _⟩

/-- Usages anywhere in a schema may be without arguments that they need not supply. -/
abbrev Schema.Thinned (schema : Schema) : Schema → Prop :=
  schema.Like (.thinning schema)

/-- Nothing stands for anything else. -/
def Likeness.identity : Likeness where
  described := (· = ·)
  used := (· = ·)
  described_refl _ := rfl
  used_refl _ := rfl

end GraphqlReference
