import GraphqlReference.Proofs.Schema.Extending
import GraphqlReference.Proofs.Schema.Lookup
import GraphqlReference.Proofs.Schema.Obtained

namespace GraphqlReference

/-- The same schema, up to the order of its declarations. -/
structure Schema.Similar (schema schema' : Schema) : Prop where
  description : schema.description = schema'.description
  roots : schema.root? = schema'.root?
  usages : schema.usages = schema'.usages
  types : schema.types.Perm schema'.types
  directives : schema.directives.Perm schema'.directives
  distinct : schema.IsDistinct

namespace Schema.Similar

variable {schema schema' : Schema}

theorem type?_eq (similar : schema.Similar schema') : schema.type? = schema'.type? :=
  funext fun name => find?_perm similar.types similar.distinct.types name

theorem directive?_eq (similar : schema.Similar schema') :
    schema.directive? = schema'.directive? :=
  funext fun name => find?_perm similar.directives similar.distinct.directives name

end Schema.Similar

namespace SchemaBuilder

variable {builder builder' : SchemaBuilder}

/-- The same builder, up to the order of its declarations. -/
structure Similar (builder builder' : SchemaBuilder) : Prop where
  description : builder.description = builder'.description
  roots : builder.roots = builder'.roots
  explicitRoots : builder.explicitRoots = builder'.explicitRoots
  usages : builder.usages = builder'.usages
  types : builder.types.Perm builder'.types
  directives : builder.directives.Perm builder'.directives
  distinct : builder.IsDistinct

namespace Similar

theorem type?_eq (similar : builder.Similar builder') : builder.type? = builder'.type? :=
  funext fun name => lookup_perm similar.types similar.distinct.types.distinct name

theorem root?_eq (similar : builder.Similar builder') : builder.root? = builder'.root? := by
  funext operation
  unfold root?
  rw [similar.roots, similar.explicitRoots, similar.type?_eq]

theorem admits (similar : builder.Similar builder') {extension : TypeDefinition}
    (admitted : builder.Admits extension) : builder'.Admits extension := by
  unfold Admits at *
  rwa [← similar.type?_eq]

theorem extendTypes (similar : builder.Similar builder')
    {extensions extensions' : List TypeDefinition}
    (same : ∀ name, extensions.filter (·.name = name) = extensions'.filter (·.name = name)) :
    (builder.extendTypes extensions).Similar (builder'.extendTypes extensions') := by
  have grown (known : String) (definition : TypeDefinition) :
      definition.extendedBy extensions known = definition.extendedBy extensions' known := by
    rw [TypeDefinition.extendedBy, same, TypeDefinition.extendedBy]
  have types : (builder.extendTypes extensions').types = (builder.extendTypes extensions).types :=
    List.map_congr_left fun entry _ => Prod.ext rfl (grown entry.1 entry.2).symm
  exact
    { description := similar.description
      roots := similar.roots
      explicitRoots := similar.explicitRoots
      usages := similar.usages
      types := types ▸ similar.types.map _
      directives := similar.directives
      distinct := ⟨similar.distinct.types.map fun known _ =>
        TypeDefinition.name_extendedBy extensions known, similar.distinct.directives⟩ }

theorem build (similar : builder.Similar builder') {schema : Schema}
    (built : builder.build = .ok schema) :
    ∃ schema', builder'.build = .ok schema' ∧ schema.Similar schema' := by
  have distinct := Schema.isDistinct_build similar.distinct built
  unfold SchemaBuilder.build at built ⊢
  rw [← similar.root?_eq]
  split at built
  · cases built
  · obtain ⟨⟩ := built
    refine ⟨_, rfl, similar.description, ?_, similar.usages, similar.types.map Prod.snd,
      similar.directives.map Prod.snd, distinct⟩
    funext operation
    cases operation <;> rfl

end Similar

end SchemaBuilder

end GraphqlReference
