import Mathlib.Data.List.Induction
import GraphqlReference.Proofs.Schema.Obtained

namespace GraphqlReference

section

variable {α : Type} {name : α → String}

/-- The items whose names are new to those that there have been before. -/
def newItems (name : α → String) (base items : List α) : List α :=
  items.filter fun item => (base.find? (name · == name item)).isNone

theorem newItems_concat_known {base items : List α} {item existing : α}
    (found : base.find? (name · == name item) = some existing) :
    newItems name base (items ++ [item]) = newItems name base items := by
  simp [newItems, found]

theorem newItems_concat_new {base items : List α} {item : α}
    (absent : base.find? (name · == name item) = none) :
    newItems name base (items ++ [item]) = newItems name base items ++ [item] := by
  simp [newItems, absent]

theorem find?_newItems {base items : List α} {item : α}
    (distinct : ((items ++ [item]).map name).Nodup) :
    (base ++ newItems name base items).find? (name · == name item) =
      base.find? (name · == name item) := by
  have absent : (newItems name base items).find? (name · == name item) = none := by
    refine List.find?_eq_none.mpr fun other member same => ?_
    have inside : name other ∈ items.map name :=
      List.mem_map_of_mem (List.mem_filter.mp member).1
    rw [List.map_append, List.nodup_append] at distinct
    exact distinct.2.2 _ inside _ (by simp) (beq_iff_eq.mp same)
  rw [List.find?_append, absent, Option.or_none]

end

namespace SchemaBuilder

variable {builder builder' : SchemaBuilder}

/-- A type may be declared again if it is built in, and with its kind only. -/
def AcceptsType (builder : SchemaBuilder) (definition : TypeDefinition) : Prop :=
  ∀ existing, builder.type? definition.name = some existing →
    existing.isBuiltIn = true ∧ existing.kind = definition.kind

/-- A directive may be declared again if it is built in. -/
def AcceptsDirective (builder : SchemaBuilder) (definition : DirectiveDefinition) : Prop :=
  ∀ existing, builder.directive? definition.name = some existing → existing.isBuiltIn = true

theorem addType_found {definition existing : TypeDefinition}
    (found : builder.type? definition.name = some existing) :
    builder.addType definition =
      if existing.isBuiltIn && existing.kind == definition.kind then .ok builder
      else .error (.duplicateType definition.name) := by
  rw [addType, after, declareType_known found]
  cases existing.isBuiltIn && existing.kind == definition.kind <;> rfl

theorem addType_known {definition existing : TypeDefinition}
    (found : builder.type? definition.name = some existing) :
    builder.addType definition = .ok builder' ↔
      builder.AcceptsType definition ∧ builder' = builder := by
  rw [addType_found found, ite_eq_ok, AcceptsType, found]
  simp

theorem addType_new {definition : TypeDefinition}
    (absent : builder.type? definition.name = none) :
    builder.addType definition =
      .ok { builder with types := builder.types ++ [(definition.name, definition)] } := by
  rw [addType, after, declareType_new absent]

theorem addDirective_found {definition existing : DirectiveDefinition}
    (found : builder.directive? definition.name = some existing) :
    builder.addDirective definition =
      if existing.isBuiltIn then .ok builder
      else .error (.duplicateDirective definition.name) := by
  rw [addDirective, after, declareDirective_known found]
  cases existing.isBuiltIn <;> rfl

theorem addDirective_known {definition existing : DirectiveDefinition}
    (found : builder.directive? definition.name = some existing) :
    builder.addDirective definition = .ok builder' ↔
      builder.AcceptsDirective definition ∧ builder' = builder := by
  rw [addDirective_found found, ite_eq_ok, AcceptsDirective, found]
  simp

theorem addDirective_new {definition : DirectiveDefinition}
    (absent : builder.directive? definition.name = none) :
    builder.addDirective definition =
      .ok { builder with
        directives := builder.directives ++ [(definition.name, definition)] } := by
  rw [addDirective, after, declareDirective_new absent]

end SchemaBuilder

namespace Sdl

namespace Definition

@[simp] def type? : Definition → Option TypeDefinition
  | .type definition => some definition
  | _ => none

@[simp] def directive? : Definition → Option DirectiveDefinition
  | .directive definition => some definition
  | _ => none

@[simp] def block? : Definition → Option SchemaBlock
  | .schema block => some block
  | _ => none

/-- Only what is built in may have been declared before. -/
def IsAccepted : Definition → Prop
  | .type definition => SchemaBuilder.new.AcceptsType definition
  | .directive definition => SchemaBuilder.new.AcceptsDirective definition
  | .schema _ | .extension _ => True

end Definition

/-- No two types are defined under one name, and no two directives. -/
structure HasDistinctNames (definitions : List Definition) : Prop where
  types : ((definitions.filterMap Definition.type?).map TypeDefinition.name).Nodup
  directives : ((definitions.filterMap Definition.directive?).map DirectiveDefinition.name).Nodup

/-- What definitions declare, each kind of them for itself. -/
def declared (definitions : List Definition) : SchemaBuilder :=
  { (definitions.filterMap Definition.block?).foldl (fun builder block => block.apply builder)
      SchemaBuilder.new with
    types := keyed TypeDefinition.name (BuiltIn.scalars ++
      newItems TypeDefinition.name BuiltIn.scalars (definitions.filterMap Definition.type?))
    directives := keyed DirectiveDefinition.name (BuiltIn.directives ++
      newItems DirectiveDefinition.name BuiltIn.directives
        (definitions.filterMap Definition.directive?)) }

theorem type?_new (name : String) :
    SchemaBuilder.new.type? name = BuiltIn.scalars.find? (·.name == name) :=
  lookup_keyed name

theorem directive?_new (name : String) :
    SchemaBuilder.new.directive? name = BuiltIn.directives.find? (·.name == name) :=
  lookup_keyed name

theorem HasDistinctNames.of_concat {definitions : List Definition} {definition : Definition}
    (distinct : HasDistinctNames (definitions ++ [definition])) : HasDistinctNames definitions where
  types := by
    have names := distinct.types
    rw [List.filterMap_append, List.map_append] at names
    exact (List.nodup_append.mp names).1
  directives := by
    have names := distinct.directives
    rw [List.filterMap_append, List.map_append] at names
    exact (List.nodup_append.mp names).1

section

variable {definitions : List Definition}

theorem declared_schema (block : SchemaBlock) :
    declared (definitions ++ [.schema block]) = block.apply (declared definitions) := by
  simp [declared, List.filterMap_cons, SchemaBlock.apply]

theorem declared_extension (extension : TypeDefinition) :
    declared (definitions ++ [.extension extension]) = declared definitions := by
  simp [declared, List.filterMap_cons]

theorem declared_type_known {definition existing : TypeDefinition}
    (found : SchemaBuilder.new.type? definition.name = some existing) :
    declared (definitions ++ [.type definition]) = declared definitions := by
  rw [type?_new] at found
  simp [declared, List.filterMap_cons, newItems_concat_known found]

theorem declared_type_new {definition : TypeDefinition}
    (absent : SchemaBuilder.new.type? definition.name = none) :
    declared (definitions ++ [.type definition]) =
      { declared definitions with
        types := (declared definitions).types ++ [(definition.name, definition)] } := by
  rw [type?_new] at absent
  simp [declared, keyed, List.filterMap_cons, newItems_concat_new absent]

theorem declared_directive_known {definition existing : DirectiveDefinition}
    (found : SchemaBuilder.new.directive? definition.name = some existing) :
    declared (definitions ++ [.directive definition]) = declared definitions := by
  rw [directive?_new] at found
  simp [declared, List.filterMap_cons, newItems_concat_known found]

theorem declared_directive_new {definition : DirectiveDefinition}
    (absent : SchemaBuilder.new.directive? definition.name = none) :
    declared (definitions ++ [.directive definition]) =
      { declared definitions with
        directives :=
          (declared definitions).directives ++ [(definition.name, definition)] } := by
  rw [directive?_new] at absent
  simp [declared, keyed, List.filterMap_cons, newItems_concat_new absent]

theorem type?_declared {definition : TypeDefinition}
    (distinct : HasDistinctNames (definitions ++ [.type definition])) :
    (declared definitions).type? definition.name =
      SchemaBuilder.new.type? definition.name := by
  rw [type?_new]
  refine (lookup_keyed _).trans (find?_newItems ?_)
  simpa [Definition.type?] using distinct.types

theorem directive?_declared {definition : DirectiveDefinition}
    (distinct : HasDistinctNames (definitions ++ [.directive definition])) :
    (declared definitions).directive? definition.name =
      SchemaBuilder.new.directive? definition.name := by
  rw [directive?_new]
  refine (lookup_keyed _).trans (find?_newItems ?_)
  simpa [Definition.directive?] using distinct.directives

theorem declare_declared {definition : Definition} {builder : SchemaBuilder}
    (distinct : HasDistinctNames (definitions ++ [definition])) :
    declare (declared definitions) definition = .ok builder ↔
      definition.IsAccepted ∧ builder = declared (definitions ++ [definition]) := by
  cases definition with
  | schema block =>
      simp only [declare, declared_schema, Definition.IsAccepted, Except.ok.injEq, true_and]
      exact eq_comm
  | extension extension =>
      simp only [declare, declared_extension, Definition.IsAccepted, Except.ok.injEq, true_and]
      exact eq_comm
  | type definition =>
      have lookup := type?_declared distinct
      cases found : SchemaBuilder.new.type? definition.name with
      | none =>
          rw [declare, SchemaBuilder.addType_new (lookup.trans found), declared_type_new found]
          simp only [Definition.IsAccepted, SchemaBuilder.AcceptsType, found, Except.ok.injEq,
            reduceCtorEq, false_implies, implies_true, true_and]
          exact eq_comm
      | some existing =>
          rw [declare, SchemaBuilder.addType_known (lookup.trans found), declared_type_known found]
          simp only [Definition.IsAccepted, SchemaBuilder.AcceptsType, lookup]
  | directive definition =>
      have lookup := directive?_declared distinct
      cases found : SchemaBuilder.new.directive? definition.name with
      | none =>
          rw [declare, SchemaBuilder.addDirective_new (lookup.trans found),
            declared_directive_new found]
          simp only [Definition.IsAccepted, SchemaBuilder.AcceptsDirective, found, Except.ok.injEq,
            reduceCtorEq, false_implies, implies_true, true_and]
          exact eq_comm
      | some existing =>
          rw [declare, SchemaBuilder.addDirective_known (lookup.trans found),
            declared_directive_known found]
          simp only [Definition.IsAccepted, SchemaBuilder.AcceptsDirective, lookup]

/-- Whether definitions are accepted, and what they declare, can be told of each for itself. -/
theorem foldlM_declare_eq_ok {builder : SchemaBuilder} (distinct : HasDistinctNames definitions) :
    definitions.foldlM declare .new = .ok builder ↔
      (∀ definition ∈ definitions, definition.IsAccepted) ∧ builder = declared definitions := by
  induction definitions using List.reverseRec generalizing builder with
  | nil =>
      constructor
      · rintro ⟨⟩
        exact ⟨fun _ member => absurd member List.not_mem_nil, rfl⟩
      · rintro ⟨_, rfl⟩
        rfl
  | append_singleton earlier last ih =>
      rw [List.foldlM_append, bind_eq_ok, List.forall_mem_append, List.forall_mem_singleton]
      constructor
      · rintro ⟨next, folded, stepped⟩
        obtain ⟨accepted, rfl⟩ := (ih distinct.of_concat).mp folded
        rw [List.foldlM_cons, bind_eq_ok] at stepped
        obtain ⟨_, stepped, ⟨⟩⟩ := stepped
        obtain ⟨acceptedLast, same⟩ := (declare_declared distinct).mp stepped
        exact ⟨⟨accepted, acceptedLast⟩, same⟩
      · rintro ⟨⟨accepted, acceptedLast⟩, same⟩
        refine ⟨_, (ih distinct.of_concat).mpr ⟨accepted, rfl⟩, ?_⟩
        rw [List.foldlM_cons, bind_eq_ok]
        exact ⟨builder, (declare_declared distinct).mpr ⟨acceptedLast, same⟩, rfl⟩

end

end Sdl

end GraphqlReference
