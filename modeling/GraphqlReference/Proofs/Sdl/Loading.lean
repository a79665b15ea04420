import GraphqlReference.Proofs.Sdl.Merging

namespace GraphqlReference.Sdl

section

variable {definitions : List Definition} {builder : SchemaBuilder}

theorem usages_declared (definitions : List Definition) : (declared definitions).usages =
    (definitions.filterMap Definition.block?).flatMap SchemaBlock.usages := by
  have folded (blocks : List SchemaBlock) (builder : SchemaBuilder) :
      (blocks.foldl (fun builder block => block.apply builder) builder).usages =
        builder.usages ++ blocks.flatMap SchemaBlock.usages := by
    induction blocks generalizing builder with
    | nil => exact (List.append_nil _).symm
    | cons block rest ih =>
        rw [List.foldl_cons, ih, List.flatMap_cons, ← List.append_assoc]
        rfl
  exact folded _ .new

theorem collect_user (user : ∀ definition ∈ definitions, definition.IsUser)
    (collected : collect definitions = .ok builder) :
    builder = (declared definitions).extendTypes
      (definitions.filterMap Definition.extension?) := by
  obtain ⟨base, folded, extended⟩ := bind_eq_ok.mp collected
  obtain rfl := foldlM_declare_user user folded
  exact (SchemaBuilder.foldlM_extendType_eq_ok.mp extended).2

theorem usages_build {schema : Schema} (built : builder.build = .ok schema) :
    schema.usages = builder.usages := by
  unfold SchemaBuilder.build at built
  split at built
  · cases built
  · obtain ⟨⟩ := built
    rfl

end

variable {definitions : List Definition} {schema : Schema}
  (user : ∀ definition ∈ definitions, definition.IsUser)
  (loaded : load definitions = .ok schema)

include user loaded

theorem forall_usages {property : DirectiveUsage → Prop}
    (written : ∀ block, .schema block ∈ definitions → ∀ usage ∈ block.usages, property usage) :
    ∀ usage ∈ schema.usages, property usage := by
  obtain ⟨builder, collected, built⟩ := bind_eq_ok.mp loaded
  obtain rfl := collect_user user collected
  intro usage member
  have inside : usage ∈ (declared definitions).usages := usages_build built ▸ member
  rw [usages_declared] at inside
  obtain ⟨block, among, here⟩ := List.mem_flatMap.mp inside
  obtain ⟨origin, insideOrigin, found⟩ := List.mem_filterMap.mp among
  cases origin with
  | schema =>
      obtain ⟨⟩ := found
      exact written block insideOrigin usage here
  | type | extension | directive => cases found

/-- Induction along the extensions of each type. -/
theorem forall_types {property : TypeDefinition → Prop}
    (builtIn : ∀ scalar ∈ BuiltIn.scalars, property scalar)
    (written : ∀ definition, .type definition ∈ definitions → property definition)
    (extended : ∀ definition extension, property definition → .extension extension ∈ definitions →
      property (definition.extendWith extension)) :
    ∀ definition ∈ schema.types, property definition := by
  obtain ⟨builder, collected, built⟩ := bind_eq_ok.mp loaded
  obtain rfl := collect_user user collected
  rw [(types_build built).1, SchemaBuilder.extendTypes, types_declared, keyed, List.map_map,
    List.map_map]
  intro changed member
  obtain ⟨definition, inside, rfl⟩ := List.mem_map.mp member
  have start : property definition :=
    (List.mem_append.mp inside).elim (builtIn definition) fun own =>
      written definition (mem_userTypes own)
  refine List.foldlRecOn (motive := property) _ _ start fun grown holds extension among => ?_
  obtain ⟨origin, insideOrigin, found⟩ := List.mem_filterMap.mp (List.mem_filter.mp among).1
  cases origin with
  | extension =>
      obtain ⟨⟩ := found
      exact extended grown extension holds insideOrigin
  | schema | type | directive => cases found

theorem forall_directives {property : DirectiveDefinition → Prop}
    (builtIn : ∀ directive ∈ BuiltIn.directives, property directive)
    (written : ∀ definition, .directive definition ∈ definitions → property definition) :
    ∀ definition ∈ schema.directives, property definition := by
  obtain ⟨builder, collected, built⟩ := bind_eq_ok.mp loaded
  rw [(types_build built).2, (collect_merged user collected).2]
  exact List.forall_mem_append.mpr
    ⟨builtIn, fun definition own => written definition (mem_userDirectives.mp own).1⟩

end GraphqlReference.Sdl
