import GraphqlReference.Proofs.Outcome
import GraphqlReference.Proofs.Schema.Lookup
import GraphqlReference.Schema.Builder

namespace GraphqlReference

namespace TypeBody

theorem kind_extend (body more : TypeBody) : (body.extend more).kind = body.kind := by
  cases body <;> cases more <;> rfl

end TypeBody

namespace TypeDefinition

variable {definition extension : TypeDefinition}

@[simp] theorem kind_extendWith : (definition.extendWith extension).kind = definition.kind :=
  TypeBody.kind_extend definition.body extension.body

/-- What has been declared under a name, after those of the extensions that bear the name. -/
def extendedBy (extensions : List TypeDefinition) (name : String) (definition : TypeDefinition) :
    TypeDefinition :=
  (extensions.filter (·.name = name)).foldl extendWith definition

@[simp] theorem name_extendedBy (extensions : List TypeDefinition) (name : String) :
    (definition.extendedBy extensions name).name = definition.name := by
  let named (grown : TypeDefinition) : Prop := grown.name = definition.name
  exact List.foldlRecOn (motive := named) _ _ rfl fun _ same _ _ => same

@[simp] theorem kind_extendedBy (extensions : List TypeDefinition) (name : String) :
    (definition.extendedBy extensions name).kind = definition.kind := by
  let ofKind (grown : TypeDefinition) : Prop := grown.kind = definition.kind
  exact List.foldlRecOn (motive := ofKind) _ _ rfl fun _ same _ _ => kind_extendWith.trans same

theorem extendedBy_append (extensions more : List TypeDefinition) (name : String) :
    definition.extendedBy (extensions ++ more) name =
      (definition.extendedBy extensions name).extendedBy more name := by
  rw [extendedBy, List.filter_append, List.foldl_append]
  rfl

theorem extendedBy_singleton (extension : TypeDefinition) (name : String) :
    definition.extendedBy [extension] name =
      if name = extension.name then definition.extendWith extension else definition := by
  unfold extendedBy
  by_cases same : name = extension.name
  · subst same
    simp
  · simp [same, Ne.symm same]

end TypeDefinition

namespace SchemaBuilder

variable {builder builder' : SchemaBuilder}

/-- There is a type of the extension's name and kind. -/
def Admits (builder : SchemaBuilder) (extension : TypeDefinition) : Prop :=
  ∃ base, builder.type? extension.name = some base ∧ base.kind = extension.kind

/-- A builder in which every type has taken up its extensions. -/
def extendTypes (builder : SchemaBuilder) (extensions : List TypeDefinition) : SchemaBuilder :=
  { builder with
    types := builder.types.map fun entry => (entry.1, entry.2.extendedBy extensions entry.1) }

theorem extendTypes_nil : builder.extendTypes [] = builder := by
  simp [extendTypes, TypeDefinition.extendedBy]

theorem extendTypes_append (extensions more : List TypeDefinition) :
    builder.extendTypes (extensions ++ more) =
      (builder.extendTypes extensions).extendTypes more := by
  simp [extendTypes, TypeDefinition.extendedBy_append]

theorem type?_extendTypes (extensions : List TypeDefinition) (name : String) :
    (builder.extendTypes extensions).type? name =
      (builder.type? name).map fun definition => definition.extendedBy extensions name :=
  lookup_map (fun known definition => TypeDefinition.extendedBy extensions known definition) name

theorem extendType_eq_ok {extension : TypeDefinition} :
    builder.extendType extension = .ok builder' ↔
      builder.Admits extension ∧ builder' = builder.extendTypes [extension] := by
  unfold extendType Admits
  cases found : builder.type? extension.name with
  | none =>
      constructor
      · rintro ⟨⟩
      · rintro ⟨⟨_, ⟨⟩, _⟩, _⟩
  | some base =>
      dsimp only
      rw [ite_eq_ok]
      simp [extendTypes, changeNamed, TypeDefinition.extendedBy_singleton]

theorem admits_extendTypes {extensions : List TypeDefinition} {other : TypeDefinition} :
    (builder.extendTypes extensions).Admits other ↔ builder.Admits other := by
  unfold Admits
  rw [type?_extendTypes]
  cases builder.type? other.name with
  | none => simp
  | some base => simp

/-- Extensions succeed together if each of them fits the types that there have been before. -/
theorem foldlM_extendType_eq_ok {extensions : List TypeDefinition} :
    extensions.foldlM extendType builder = .ok builder' ↔
      (∀ extension ∈ extensions, builder.Admits extension) ∧
        builder' = builder.extendTypes extensions := by
  induction extensions generalizing builder with
  | nil =>
      rw [extendTypes_nil]
      constructor
      · rintro ⟨⟩
        exact ⟨fun _ member => absurd member List.not_mem_nil, rfl⟩
      · rintro ⟨_, rfl⟩
        rfl
  | cons first rest ih =>
      have inTurn : builder.extendTypes (first :: rest) =
          (builder.extendTypes [first]).extendTypes rest := extendTypes_append [first] rest
      rw [List.foldlM_cons, bind_eq_ok, List.forall_mem_cons, inTurn]
      constructor
      · rintro ⟨next, extended, folded⟩
        obtain ⟨admitted, rfl⟩ := extendType_eq_ok.mp extended
        obtain ⟨others, rfl⟩ := ih.mp folded
        exact ⟨⟨admitted, fun extension member =>
          admits_extendTypes.mp (others extension member)⟩, rfl⟩
      · rintro ⟨⟨admitted, others⟩, rfl⟩
        refine ⟨_, extendType_eq_ok.mpr ⟨admitted, rfl⟩, ih.mpr ⟨?_, rfl⟩⟩
        exact fun extension member => admits_extendTypes.mpr (others extension member)

end SchemaBuilder

end GraphqlReference
