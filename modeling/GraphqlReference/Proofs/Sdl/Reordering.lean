import GraphqlReference.Proofs.Page.Ordering
import GraphqlReference.Proofs.Sdl.Declaring

namespace GraphqlReference.Sdl

variable {definitions definitions' : List Definition}

/-- The same definitions in another order. Schema blocks keep theirs, and so do the extensions of
each type. -/
structure Reordered (definitions definitions' : List Definition) : Prop where
  perm : definitions.Perm definitions'
  blocks : definitions.filterMap Definition.block? = definitions'.filterMap Definition.block?
  extensions : ∀ name,
    (definitions.filterMap Definition.extension?).filter (·.name = name) =
      (definitions'.filterMap Definition.extension?).filter (·.name = name)

namespace Reordered

theorem hasDistinctNames (reordered : Reordered definitions definitions')
    (distinct : HasDistinctNames definitions) : HasDistinctNames definitions' where
  types := ((reordered.perm.filterMap _).map _).nodup_iff.mp distinct.types
  directives := ((reordered.perm.filterMap _).map _).nodup_iff.mp distinct.directives

theorem declared (reordered : Reordered definitions definitions')
    (distinct : (declared definitions).IsDistinct) :
    (declared definitions).Similar (declared definitions') where
  description := by simp only [Sdl.declared, reordered.blocks]
  roots := by simp only [Sdl.declared, reordered.blocks]
  explicitRoots := by simp only [Sdl.declared, reordered.blocks]
  usages := by simp only [Sdl.declared, reordered.blocks]
  types := (((reordered.perm.filterMap _).filter _).append_left _).map _
  directives := (((reordered.perm.filterMap _).filter _).append_left _).map _
  distinct := distinct

end Reordered

theorem collect_reordered (reordered : Reordered definitions definitions')
    (distinct : HasDistinctNames definitions) {builder : SchemaBuilder}
    (collected : collect definitions = .ok builder) :
    ∃ builder', collect definitions' = .ok builder' ∧ builder.Similar builder' := by
  obtain ⟨base, folded, extended⟩ := bind_eq_ok.mp collected
  have distinctBase : base.IsDistinct :=
    foldlM_invariant (fun _ => isDistinct_declare) SchemaBuilder.isDistinct_new folded
  obtain ⟨accepted, rfl⟩ := (foldlM_declare_eq_ok distinct).mp folded
  obtain ⟨admitted, rfl⟩ := SchemaBuilder.foldlM_extendType_eq_ok.mp extended
  have similar := reordered.declared distinctBase
  have folded' := (foldlM_declare_eq_ok (reordered.hasDistinctNames distinct)).mpr
    ⟨fun definition member => accepted definition (reordered.perm.mem_iff.mpr member), rfl⟩
  have extended' := SchemaBuilder.foldlM_extendType_eq_ok.mpr
    ⟨fun extension member => similar.admits
      (admitted extension ((reordered.perm.filterMap _).mem_iff.mpr member)), rfl⟩
  exact ⟨_, bind_eq_ok.mpr ⟨_, folded', extended'⟩, similar.extendTypes reordered.extensions⟩

theorem load_reordered (reordered : Reordered definitions definitions')
    (distinct : HasDistinctNames definitions) {schema : Schema}
    (loaded : load definitions = .ok schema) :
    ∃ schema', load definitions' = .ok schema' ∧ schema.Similar schema' := by
  obtain ⟨builder, collected, built⟩ := bind_eq_ok.mp loaded
  obtain ⟨builder', collected', similar⟩ := collect_reordered reordered distinct collected
  obtain ⟨schema', built', same⟩ := similar.build built
  exact ⟨schema', bind_eq_ok.mpr ⟨builder', collected', built'⟩, same⟩

/-- The order of definitions does not show, neither in what is written nor in what goes wrong. -/
theorem pages_reordered (reordered : Reordered definitions definitions')
    (distinct : HasDistinctNames definitions) {schema : Schema}
    (loaded : load definitions = .ok schema) :
    ∃ schema', load definitions' = .ok schema' ∧ ∀ config : Config,
      Page.anchors schema config.includeBuiltIns = Page.anchors schema' config.includeBuiltIns ∧
      Page.fragments schema config = Page.fragments schema' config ∧
      Page.render schema config = Page.render schema' config := by
  obtain ⟨schema', loaded', similar⟩ := load_reordered reordered distinct loaded
  refine ⟨schema', loaded', fun config => ⟨?_, ?_, ?_⟩⟩
  · rw [Page.anchors_similar similar]
  · rw [Page.fragments_similar similar]
  · rw [Page.render_similar similar]

/-- A type, its extension, a redeclared scalar, and a directive. -/
def queryDefinitions : List Definition :=
  [ .type ⟨"Query", none, .user, [], .object ["Node"] []⟩
  , .extension ⟨"Query", none, .user, [⟨"cached", []⟩], .object [] []⟩
  , .type ⟨"ID", none, .user, [], .scalar⟩
  , .directive ⟨"cached", none, .user, [], false, [.object]⟩ ]

theorem pages_reordered_query : ∃ schema schema', load queryDefinitions = .ok schema ∧
    load queryDefinitions.reverse = .ok schema' ∧ ∀ config : Config,
      Page.anchors schema config.includeBuiltIns = Page.anchors schema' config.includeBuiltIns ∧
      Page.fragments schema config = Page.fragments schema' config ∧
      Page.render schema config = Page.render schema' config := by
  obtain ⟨schema, loaded⟩ : ∃ schema, load queryDefinitions = .ok schema := ⟨_, rfl⟩
  have reordered : Reordered queryDefinitions queryDefinitions.reverse :=
    ⟨(List.reverse_perm _).symm, rfl, fun _ => rfl⟩
  obtain ⟨schema', loaded', same⟩ := pages_reordered reordered ⟨by decide, by decide⟩ loaded
  exact ⟨schema, schema', loaded, loaded', same⟩

end GraphqlReference.Sdl
