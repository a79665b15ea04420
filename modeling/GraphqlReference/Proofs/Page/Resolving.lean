import GraphqlReference.Page.Document
import GraphqlReference.Proofs.Page.Items
import GraphqlReference.Proofs.Page.Walking

namespace GraphqlReference.Page

open Html

mutual

theorem succeeds_literal (value : Value) : Succeeds (literal value) ↔ value.IsFinite := by
  cases value with
  | boolean | int | string | enum | null =>
      exact iff_of_true (succeeds_ok _) fun _ member => absurd member List.not_mem_nil
  | float number =>
      rw [Value.IsFinite, Value.numbers, List.forall_mem_singleton, literal]
      cases finite : number.isFinite with
      | true => exact iff_of_true (succeeds_ok _) rfl
      | false => exact iff_of_false (not_succeeds_error _) Bool.false_ne_true
  | list items => exact succeeds_bind_ok.trans (succeeds_literals items)
  | object fields => exact succeeds_bind_ok.trans (succeeds_fieldLiterals fields)

theorem succeeds_literals (items : List Value) :
    Succeeds (literals items) ↔ ∀ number ∈ Value.itemNumbers items, number.isFinite = true := by
  cases items with
  | nil => exact iff_of_true (succeeds_ok []) fun _ member => absurd member List.not_mem_nil
  | cons item rest =>
      rw [Value.itemNumbers, List.forall_mem_append, ← succeeds_literals rest]
      exact (succeeds_bind fun _ => succeeds_bind_ok).trans
        (and_congr_left fun _ => succeeds_literal item)

theorem succeeds_fieldLiterals (fields : List (String × Value)) :
    Succeeds (fieldLiterals fields) ↔
      ∀ number ∈ Value.fieldNumbers fields, number.isFinite = true := by
  cases fields with
  | nil => exact iff_of_true (succeeds_ok []) fun _ member => absurd member List.not_mem_nil
  | cons field rest =>
      obtain ⟨name, value⟩ := field
      rw [Value.fieldNumbers, List.forall_mem_append, ← succeeds_fieldLiterals rest]
      exact (succeeds_bind fun _ => succeeds_bind_ok).trans
        (and_congr_left fun _ => succeeds_literal value)

end

theorem succeeds_typeDisplay (type : TypeRef) : Succeeds (typeDisplay type) ↔ type.IsWritable := by
  unfold TypeRef.IsWritable
  induction type with
  | named name =>
      exact iff_of_true (succeeds_ok _) fun _ member => by simp [TypeRef.layers] at member
  | list inner ih =>
      refine succeeds_bind_ok.trans (ih.trans (forall_congr' fun other => ?_))
      simp [TypeRef.layers]
  | nonNull inner ih =>
      cases inner with
      | nonNull inner =>
          exact iff_of_false (not_succeeds_error _) fun absent => absent inner List.mem_cons_self
      | named | list =>
          refine succeeds_bind_ok.trans (ih.trans (forall_congr' fun other => ?_))
          simp [TypeRef.layers]

variable {schema : Schema}

theorem succeeds_typeLink (style : String) (type : TypeRef) :
    Succeeds (typeLink schema style type) ↔
      schema.HasType type.innermost ∧ type.IsWritable := by
  unfold typeLink Schema.HasType
  dsimp only
  cases found : schema.type? type.innermost with
  | none => exact iff_of_false (not_succeeds_error _) fun both => Bool.false_ne_true both.1
  | some definition =>
      exact (succeeds_bind_ok.trans (succeeds_typeDisplay type)).trans (and_iff_right rfl).symm

theorem succeeds_namedTypeLink (style name : String) :
    Succeeds (namedTypeLink schema style name) ↔ schema.HasType name := by
  refine (succeeds_typeLink style (.named name)).trans (and_iff_left fun inner member => ?_)
  simp [TypeRef.layers] at member

theorem succeeds_directiveLink {name : String} {definition : DirectiveDefinition}
    (found : schema.directive? name = some definition) : Succeeds (directiveLink schema name) := by
  unfold directiveLink
  rw [found]
  exact succeeds_ok _

theorem isDeclaredDefault_eq_false {argument : Argument} {value : Value} :
    isDeclaredDefault argument value = false ↔
      ∀ default ∈ argument.default, default.sameAs value = false := by
  unfold isDeclaredDefault
  cases argument.default with
  | none => simp
  | some default => simp

theorem succeeds_suppliedArguments (definition : DirectiveDefinition)
    (supplied : List (String × Value)) :
    Succeeds (suppliedArguments definition supplied) ↔
      ∀ entry ∈ supplied, Schema.AcceptsArgument definition entry.1 entry.2 := by
  induction supplied with
  | nil => exact iff_of_true (succeeds_ok []) fun _ member => absurd member List.not_mem_nil
  | cons entry rest ih =>
      obtain ⟨name, value⟩ := entry
      rw [List.forall_mem_cons, ← ih, suppliedArguments]
      unfold Schema.AcceptsArgument
      cases found : definition.argument? name with
      | none =>
          refine iff_of_false (not_succeeds_error _) ?_
          rintro ⟨⟨_, ⟨⟩, _⟩, _⟩
      | some argument =>
          simp only [Option.some.injEq, exists_eq_left', ← isDeclaredDefault_eq_false]
          cases isDeclaredDefault argument value with
          | true => simp
          | false =>
              refine (succeeds_bind fun _ => succeeds_bind_ok).trans (and_congr_left fun _ => ?_)
              exact (succeeds_bind_ok.trans (succeeds_literal value)).trans (by simp)

theorem succeeds_usage (usage : DirectiveUsage) :
    Succeeds (Page.usage schema usage) ↔ schema.AcceptsUsage usage := by
  unfold Page.usage Schema.AcceptsUsage
  cases found : schema.directive? usage.directive with
  | none =>
      refine iff_of_false (not_succeeds_error _) ?_
      rintro ⟨_, ⟨⟩, _⟩
  | some definition =>
      simp only [Option.some.injEq, exists_eq_left']
      rw [← succeeds_suppliedArguments]
      exact (succeeds_bind fun _ => succeeds_bind_ok).trans
        (and_iff_left (succeeds_directiveLink found))

theorem succeeds_usages (usages : List DirectiveUsage) :
    Succeeds (Page.usages schema usages) ↔ ∀ usage ∈ usages, schema.AcceptsUsage usage := by
  induction usages with
  | nil => exact iff_of_true (succeeds_ok []) fun _ member => absurd member List.not_mem_nil
  | cons first rest ih =>
      rw [List.forall_mem_cons, ← ih, ← succeeds_usage]
      exact succeeds_bind fun _ => succeeds_bind_ok

section

variable {α : Type} {description : α → Option String} {print : α → Except RenderError Section}

theorem succeeds_members (list : List α) :
    Succeeds (members description print list) ↔ ∀ member ∈ list, Succeeds (print member) := by
  rw [members_eq]
  exact succeeds_bind_ok.trans succeeds_mapM

end

theorem succeeds_defaultValue (default : Option Value) :
    Succeeds (defaultValue default) ↔ ∀ value ∈ default.toList, value.IsFinite := by
  cases default with
  | none => exact iff_of_true (succeeds_ok []) fun _ member => absurd member List.not_mem_nil
  | some value =>
      rw [Option.toList_some, List.forall_mem_singleton]
      exact succeeds_bind_ok.trans (succeeds_literal value)

theorem succeeds_argument (argument : Argument) :
    Succeeds (Page.argument schema argument) ↔ schema.Resolves argument.references := by
  rw [Argument.references, Schema.resolves_member, ← succeeds_typeLink "argument-type",
    ← succeeds_usages, ← succeeds_defaultValue, ← and_rotate]
  exact succeeds_bind fun _ => succeeds_bind fun _ => succeeds_bind_ok

theorem succeeds_argumentMembers (arguments : List Argument) :
    Succeeds (argumentMembers schema arguments) ↔
      schema.Resolves (.collect Argument.references arguments) := by
  rw [Schema.resolves_collect]
  exact (succeeds_members arguments).trans
    (forall₂_congr fun argument _ => succeeds_argument argument)

theorem succeeds_argumentList (arguments : List Argument) :
    Succeeds (argumentList schema arguments) ↔
      schema.Resolves (.collect Argument.references arguments) := by
  cases arguments with
  | nil => exact iff_of_true (succeeds_ok []) Schema.resolves_nothing
  | cons first rest => exact succeeds_bind_ok.trans (succeeds_argumentMembers (first :: rest))

theorem succeeds_field (field : Field) :
    Succeeds (Page.field schema field) ↔ schema.Resolves field.references := by
  rw [Field.references, Schema.resolves_append, Schema.resolves_member,
    ← succeeds_typeLink "field-type", ← succeeds_usages, ← succeeds_argumentList, and_comm]
  refine (succeeds_bind fun _ => succeeds_bind fun _ => succeeds_bind_ok).trans
    (and_congr_right fun _ => and_congr_right fun _ => (and_iff_left ?_).symm)
  exact fun _ member => absurd member List.not_mem_nil

theorem succeeds_fieldMembers (fields : List Field) :
    Succeeds (fieldMembers schema fields) ↔
      schema.Resolves (.collect Field.references fields) := by
  rw [Schema.resolves_collect]
  exact (succeeds_members fields).trans (forall₂_congr fun field _ => succeeds_field field)

theorem succeeds_enumItem (item : EnumItem) :
    Succeeds (enumItem schema item) ↔ schema.Resolves item.references := by
  rw [EnumItem.references, Schema.resolves_usages, ← succeeds_usages]
  exact succeeds_bind_ok

theorem succeeds_enumMembers (items : List EnumItem) :
    Succeeds (enumMembers schema items) ↔
      schema.Resolves (.collect EnumItem.references items) := by
  rw [Schema.resolves_collect]
  exact (succeeds_members items).trans (forall₂_congr fun item _ => succeeds_enumItem item)

theorem succeeds_flattenLinks (interfaces : List String) :
    Succeeds (flattenLinks schema interfaces) ↔ schema.Resolves { interfaces } := by
  rw [Schema.resolves_interfaces, ← succeeds_flattenNames]
  constructor
  · intro ⟨links, printed⟩
    obtain ⟨list, flattened, _⟩ := bind_eq_ok.mp printed
    exact ⟨list, flattened⟩
  · intro ⟨list, flattened⟩
    have known : ∀ name ∈ list, Succeeds (namedTypeLink schema "typename" name) := by
      intro name member
      have brought := (mem_flattenNames flattened name).mp member
      exact (succeeds_namedTypeLink _ name).mpr
        ((succeeds_flattenNames interfaces).mp ⟨list, flattened⟩ name brought)
    obtain ⟨links, printed⟩ := succeeds_mapM.mpr known
    exact ⟨links, bind_eq_ok.mpr ⟨list, flattened, printed⟩⟩

theorem succeeds_implementsClause (interfaces : List String) :
    Succeeds (implementsClause schema interfaces) ↔ schema.Resolves { interfaces } :=
  succeeds_bind_ok.trans (succeeds_flattenLinks interfaces)

theorem succeeds_membersClause (members : List String) :
    Succeeds (membersClause schema members) ↔ schema.Resolves { names := members } := by
  rw [Schema.resolves_names]
  exact succeeds_bind_ok.trans (succeeds_mapM.trans
    (forall₂_congr fun name _ => succeeds_namedTypeLink _ name))

theorem succeeds_typeContent (head usages : Fragment) (body : TypeBody) :
    Succeeds (typeContent schema head usages body) ↔ schema.Resolves body.references := by
  cases body with
  | object interfaces fields | interface interfaces fields =>
      rw [TypeBody.references, Schema.resolves_append, ← succeeds_implementsClause,
        ← succeeds_fieldMembers]
      exact succeeds_bind fun _ => succeeds_bind_ok
  | inputObject fields => exact succeeds_bind_ok.trans (succeeds_argumentMembers fields)
  | enum items => exact succeeds_bind_ok.trans (succeeds_enumMembers items)
  | union members => exact succeeds_bind_ok.trans (succeeds_membersClause members)
  | scalar => exact iff_of_true (succeeds_ok _) Schema.resolves_nothing

theorem succeeds_typeSection (definition : TypeDefinition) :
    Succeeds (typeSection schema definition) ↔ schema.Resolves definition.references := by
  rw [TypeDefinition.references, Schema.resolves_append, Schema.resolves_usages,
    ← succeeds_usages]
  exact succeeds_bind fun _ => succeeds_bind_ok.trans (succeeds_typeContent _ _ definition.body)

theorem succeeds_directiveSection (definition : DirectiveDefinition) :
    Succeeds (directiveSection schema definition) ↔ schema.Resolves definition.references :=
  succeeds_bind_ok.trans (succeeds_argumentList definition.arguments)

/-- What a declaration refers to. -/
def Declaration.references : Declaration → References
  | .type definition => definition.references
  | .directive definition => definition.references

theorem succeeds_declarationSection (declaration : Declaration) :
    Succeeds (declarationSection schema declaration) ↔
      schema.Resolves declaration.references := by
  cases declaration with
  | type definition => exact succeeds_typeSection definition
  | directive definition => exact succeeds_directiveSection definition

theorem succeeds_rootLine (operation : Operation) :
    Succeeds (rootLine schema operation) ↔
      ∀ name ∈ (schema.root? operation).toList, schema.HasType name := by
  unfold rootLine
  cases schema.root? operation with
  | none => exact iff_of_true (succeeds_ok _) fun _ member => absurd member List.not_mem_nil
  | some name =>
      rw [Option.toList_some, List.forall_mem_singleton]
      exact succeeds_bind_ok.trans (succeeds_namedTypeLink _ name)

theorem succeeds_schemaSection :
    Succeeds (schemaSection schema) ↔ schema.Resolves schema.ownReferences := by
  have query : Succeeds (rootLine schema .query) ↔ schema.HasType schema.query :=
    (succeeds_rootLine .query).trans List.forall_mem_singleton
  rw [Schema.resolves_ownReferences, ← succeeds_usages, ← query]
  refine succeeds_bind fun _ => succeeds_bind fun _ => ?_
  exact (succeeds_bind fun _ => succeeds_bind_ok).trans
    (and_congr (succeeds_rootLine .mutation) (succeeds_rootLine .subscription))

/-- A page can be made exactly if the schema has everything that is referred to from the page, by
the schema as a whole or by one of the declarations that are shown. -/
theorem exists_fragments_iff (schema : Schema) (config : Config) :
    (∃ texts, fragments schema config = .ok texts) ↔
      schema.Resolves schema.ownReferences ∧
        ∀ declaration ∈ declarations schema config.includeBuiltIns,
          schema.Resolves declaration.references := by
  rw [← succeeds_schemaSection]
  refine succeeds_bind_ok.trans (succeeds_bind fun _ => ?_)
  exact (succeeds_bind_ok.trans succeeds_mapM).trans
    (forall₂_congr fun declaration _ => succeeds_declarationSection declaration)

end GraphqlReference.Page
