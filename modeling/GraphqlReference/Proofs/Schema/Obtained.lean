import GraphqlReference.Proofs.Outcome
import GraphqlReference.Proofs.Schema.Lookup
import GraphqlReference.Sdl.Document

namespace GraphqlReference

/-- The calls of a builder. -/
inductive BuilderCall where
  | description (text : String)
  | root (operation : Operation) (name : String)
  | explicitRoots
  | usage (usage : DirectiveUsage)
  | type (definition : TypeDefinition)
  | directive (definition : DirectiveDefinition)

def BuilderCall.act : BuilderCall → Building Unit
  | .description text => modify (·.setDescription text)
  | .root operation name => modify (·.setRoot operation name)
  | .explicitRoots => modify (·.useExplicitRoots)
  | .usage applied => modify (·.addUsage applied)
  | .type definition => SchemaBuilder.declareType definition
  | .directive definition => SchemaBuilder.declareDirective definition

namespace SchemaBuilder

/-- The builder that an action leaves, whether it succeeds or fails. -/
def leftBy (builder : SchemaBuilder) (action : Building Unit) : SchemaBuilder :=
  match action builder with
  | .ok _ left | .error _ left => left

/-- The builder that calls leave, also with failing ones among them. -/
def afterCalls (calls : List BuilderCall) : SchemaBuilder :=
  calls.foldl (fun builder call => builder.leftBy call.act) .new

section

variable {builder builder' : SchemaBuilder}

theorem declareType_known {definition existing : TypeDefinition}
    (found : builder.type? definition.name = some existing) :
    declareType definition builder =
      if existing.isBuiltIn && existing.kind == definition.kind then .ok () builder
      else .error (.duplicateType definition.name) builder := by
  change (declareType definition).run builder = _
  rw [declareType, EStateM.run_bind, EStateM.run_get]
  dsimp only
  rw [found]
  dsimp only
  split <;> rfl

theorem declareType_new {definition : TypeDefinition}
    (absent : builder.type? definition.name = none) :
    declareType definition builder =
      .ok () { builder with types := builder.types ++ [(definition.name, definition)] } := by
  change (declareType definition).run builder = _
  rw [declareType, EStateM.run_bind, EStateM.run_get, ← setNamed_fresh (not_mem_of_lookup absent)]
  dsimp only
  rw [absent]
  rfl

theorem declareDirective_known {definition existing : DirectiveDefinition}
    (found : builder.directive? definition.name = some existing) :
    declareDirective definition builder =
      if existing.isBuiltIn then .ok () builder
      else .error (.duplicateDirective definition.name) builder := by
  change (declareDirective definition).run builder = _
  rw [declareDirective, EStateM.run_bind, EStateM.run_get]
  dsimp only
  rw [found]
  dsimp only
  split <;> rfl

theorem declareDirective_new {definition : DirectiveDefinition}
    (absent : builder.directive? definition.name = none) :
    declareDirective definition builder =
      .ok () { builder with
        directives := builder.directives ++ [(definition.name, definition)] } := by
  change (declareDirective definition).run builder = _
  rw [declareDirective, EStateM.run_bind, EStateM.run_get,
    ← setNamed_fresh (not_mem_of_lookup absent)]
  dsimp only
  rw [absent]
  rfl

theorem leftBy_type_known {definition existing : TypeDefinition}
    (found : builder.type? definition.name = some existing) :
    builder.leftBy (declareType definition) = builder := by
  rw [leftBy, declareType_known found]
  cases existing.isBuiltIn && existing.kind == definition.kind <;> rfl

theorem leftBy_type_new {definition : TypeDefinition}
    (absent : builder.type? definition.name = none) :
    builder.leftBy (declareType definition) =
      { builder with types := builder.types ++ [(definition.name, definition)] } := by
  rw [leftBy, declareType_new absent]

theorem leftBy_directive_known {definition existing : DirectiveDefinition}
    (found : builder.directive? definition.name = some existing) :
    builder.leftBy (declareDirective definition) = builder := by
  rw [leftBy, declareDirective_known found]
  cases existing.isBuiltIn <;> rfl

theorem leftBy_directive_new {definition : DirectiveDefinition}
    (absent : builder.directive? definition.name = none) :
    builder.leftBy (declareDirective definition) =
      { builder with
        directives := builder.directives ++ [(definition.name, definition)] } := by
  rw [leftBy, declareDirective_new absent]

theorem leftBy_of_after {action : Building Unit} (done : builder.after action = .ok builder') :
    builder.leftBy action = builder' := by
  unfold after at done
  unfold leftBy
  cases acted : action builder with
  | ok _ next =>
      rw [acted] at done
      exact Except.ok.inj done
  | error fault left =>
      rw [acted] at done
      cases done

/-- Types and directives stand under their names, each of them under one of its own. -/
structure IsDistinct (builder : SchemaBuilder) : Prop where
  types : IsIndexed TypeDefinition.name builder.types
  directives : IsIndexed DirectiveDefinition.name builder.directives

theorem isDistinct_new : IsDistinct .new where
  types := isIndexed_keyed (by decide)
  directives := isIndexed_keyed (by decide)

theorem IsDistinct.leftBy (distinct : builder.IsDistinct) (call : BuilderCall) :
    (builder.leftBy call.act).IsDistinct := by
  cases call with
  | description | root | explicitRoots | usage => exact ⟨distinct.types, distinct.directives⟩
  | type definition =>
      rw [BuilderCall.act]
      cases found : builder.type? definition.name with
      | some existing => rwa [leftBy_type_known found]
      | none =>
          rw [leftBy_type_new found]
          exact ⟨distinct.types.concat found, distinct.directives⟩
  | directive definition =>
      rw [BuilderCall.act]
      cases found : builder.directive? definition.name with
      | some existing => rwa [leftBy_directive_known found]
      | none =>
          rw [leftBy_directive_new found]
          exact ⟨distinct.types, distinct.directives.concat found⟩

theorem IsDistinct.extendType (distinct : builder.IsDistinct) {extension : TypeDefinition}
    (extended : builder.extendType extension = .ok builder') : builder'.IsDistinct := by
  unfold SchemaBuilder.extendType at extended
  split at extended
  · cases extended
  · split at extended
    · obtain ⟨⟩ := extended
      have kept (known : String) (definition : TypeDefinition) :
          (if known = extension.name then definition.extendWith extension
            else definition).name = definition.name := by
        split <;> rfl
      exact ⟨distinct.types.map kept, distinct.directives⟩
    · cases extended

theorem isDistinct_afterCalls (calls : List BuilderCall) : (afterCalls calls).IsDistinct := by
  refine List.foldlRecOn calls _ isDistinct_new fun _ distinct call _ => ?_
  exact distinct.leftBy call

end

end SchemaBuilder

namespace Sdl

theorem isDistinct_declare {builder builder' : SchemaBuilder} {definition : Definition}
    (distinct : builder.IsDistinct) (declared : declare builder definition = .ok builder') :
    builder'.IsDistinct := by
  cases definition with
  | schema | extension =>
      obtain ⟨⟩ := declared
      exact ⟨distinct.types, distinct.directives⟩
  | type definition =>
      exact SchemaBuilder.leftBy_of_after declared ▸ distinct.leftBy (.type definition)
  | directive definition =>
      exact SchemaBuilder.leftBy_of_after declared ▸ distinct.leftBy (.directive definition)

theorem isDistinct_collect {definitions : List Definition} {builder : SchemaBuilder}
    (collected : collect definitions = .ok builder) : builder.IsDistinct := by
  obtain ⟨declared, folded, extended⟩ := bind_eq_ok.mp collected
  have distinct : declared.IsDistinct :=
    foldlM_invariant (fun _ => isDistinct_declare) SchemaBuilder.isDistinct_new folded
  exact foldlM_invariant (fun _ distinct => distinct.extendType) distinct extended

end Sdl

namespace Schema

inductive IsObtained : Schema → Prop
  | build {calls : List BuilderCall} {schema : Schema} :
      (SchemaBuilder.afterCalls calls).build = .ok schema → IsObtained schema
  | parse {source : String} {schema : Schema} : Sdl.parse source = .ok schema → IsObtained schema

/-- Names of types are distinct, and so are names of directives. -/
structure IsDistinct (schema : Schema) : Prop where
  types : (schema.types.map TypeDefinition.name).Nodup
  directives : (schema.directives.map DirectiveDefinition.name).Nodup

theorem isDistinct_build {builder : SchemaBuilder} {schema : Schema}
    (distinct : builder.IsDistinct) (built : builder.build = .ok schema) : schema.IsDistinct := by
  unfold SchemaBuilder.build at built
  split at built
  · cases built
  · obtain ⟨⟩ := built
    exact ⟨distinct.types.values, distinct.directives.values⟩

theorem IsObtained.isDistinct {schema : Schema} (obtained : schema.IsObtained) :
    schema.IsDistinct := by
  cases obtained with
  | build built => exact isDistinct_build (SchemaBuilder.isDistinct_afterCalls _) built
  | parse parsed =>
      obtain ⟨definitions, _, loaded⟩ := bind_eq_ok.mp parsed
      obtain ⟨builder, collected, built⟩ := bind_eq_ok.mp loaded
      exact isDistinct_build (Sdl.isDistinct_collect collected) built

end Schema

end GraphqlReference
