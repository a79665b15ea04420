import GraphqlReference.Proofs.Schema.Extending
import GraphqlReference.Proofs.Schema.References

namespace GraphqlReference

namespace TypeRef

variable {inner : TypeRef}

theorem isWritable_named (name : String) : (named name).IsWritable := by
  simp [IsWritable, layers]

theorem isWritable_list : (list inner).IsWritable ↔ inner.IsWritable := by
  simp [IsWritable, layers]

theorem isWritable_nonNull (plain : ∀ deeper, inner ≠ .nonNull deeper) :
    (nonNull inner).IsWritable ↔ inner.IsWritable := by
  simp [IsWritable, layers, Ne.symm (plain _)]

end TypeRef

namespace Value

theorem itemNumbers_eq (items : List Value) : itemNumbers items = items.flatMap numbers := by
  induction items with
  | nil => rfl
  | cons item rest ih => rw [itemNumbers, ih, List.flatMap_cons]

theorem fieldNumbers_eq (fields : List (String × Value)) :
    fieldNumbers fields = fields.flatMap fun field => field.2.numbers := by
  induction fields with
  | nil => rfl
  | cons field rest ih => rw [fieldNumbers, ih, List.flatMap_cons]

theorem isFinite_list {items : List Value} :
    (list items).IsFinite ↔ ∀ item ∈ items, item.IsFinite := by
  unfold IsFinite
  rw [numbers, itemNumbers_eq, List.forall_mem_flatMap]

theorem isFinite_object {fields : List (String × Value)} :
    (object fields).IsFinite ↔ ∀ field ∈ fields, field.2.IsFinite := by
  unfold IsFinite
  rw [numbers, fieldNumbers_eq, List.forall_mem_flatMap]

end Value

namespace References

/-- All types are of one sort, and all values of another one. -/
structure Meets (type : TypeRef → Prop) (value : Value → Prop) (references : References) :
    Prop where
  types : ∀ member ∈ references.types, type member
  supplied : ∀ usage ∈ references.usages, ∀ entry ∈ usage.arguments, value entry.2
  defaults : ∀ default ∈ references.defaults, value default

/-- The types can be written, whatever the values are. -/
abbrev HasWritableTypes (references : References) : Prop :=
  references.Meets TypeRef.IsWritable fun _ => True

abbrev IsWritable (references : References) : Prop :=
  references.Meets TypeRef.IsWritable Value.IsFinite

section

variable {type : TypeRef → Prop} {value : Value → Prop} {first second : References}

/-- Names alone meet any demand on what is written. -/
theorem meets_names (names interfaces : List String) : Meets type value { names, interfaces } where
  types _ member := absurd member List.not_mem_nil
  supplied _ member := absurd member List.not_mem_nil
  defaults _ member := absurd member List.not_mem_nil

theorem meets_nothing : Meets type value {} :=
  meets_names [] []

theorem meets_append :
    (first ++ second).Meets type value ↔ first.Meets type value ∧ second.Meets type value := by
  constructor
  · intro ⟨types, supplied, defaults⟩
    obtain ⟨types, types'⟩ := List.forall_mem_append.mp types
    obtain ⟨supplied, supplied'⟩ := List.forall_mem_append.mp supplied
    obtain ⟨defaults, defaults'⟩ := List.forall_mem_append.mp defaults
    exact ⟨⟨types, supplied, defaults⟩, ⟨types', supplied', defaults'⟩⟩
  · intro ⟨meets, meets'⟩
    exact
      { types := List.forall_mem_append.mpr ⟨meets.types, meets'.types⟩
        supplied := List.forall_mem_append.mpr ⟨meets.supplied, meets'.supplied⟩
        defaults := List.forall_mem_append.mpr ⟨meets.defaults, meets'.defaults⟩ }

theorem meets_collect {α : Type} {references : α → References} {items : List α} :
    (collect references items).Meets type value ↔
      ∀ item ∈ items, (references item).Meets type value := by
  induction items with
  | nil => exact iff_of_true meets_nothing fun _ member => absurd member List.not_mem_nil
  | cons item rest ih =>
      rw [collect, List.foldr_cons, meets_append, List.forall_mem_cons]
      exact and_congr_right fun _ => ih

theorem meets_usages {usages : List DirectiveUsage} : Meets type value { usages } ↔
    ∀ usage ∈ usages, ∀ entry ∈ usage.arguments, value entry.2 :=
  ⟨Meets.supplied, fun supplied => { meets_nothing with supplied }⟩

theorem meets_member {member : TypeRef} {usages : List DirectiveUsage} {defaults : List Value} :
    Meets type value { types := [member], usages, defaults } ↔
      type member ∧ (∀ usage ∈ usages, ∀ entry ∈ usage.arguments, value entry.2) ∧
        ∀ default ∈ defaults, value default := by
  constructor
  · intro meets
    exact ⟨meets.types member List.mem_cons_self, meets.supplied, meets.defaults⟩
  · intro ⟨here, supplied, defaults⟩
    exact ⟨List.forall_mem_singleton.mpr here, supplied, defaults⟩

end

end References

section

variable {type : TypeRef → Prop} {value : Value → Prop}

theorem TypeBody.meets_extend {body more : TypeBody} (meets : body.references.Meets type value)
    (meetsMore : more.references.Meets type value) :
    (body.extend more).references.Meets type value := by
  have both {α : Type} {references : α → References} {items others : List α}
      (here : (References.collect references items).Meets type value)
      (there : (References.collect references others).Meets type value) :
      (References.collect references (items ++ others)).Meets type value :=
    References.meets_collect.mpr (List.forall_mem_append.mpr
      ⟨References.meets_collect.mp here, References.meets_collect.mp there⟩)
  cases body <;> cases more <;> try exact meets
  case object.object | interface.interface =>
    exact References.meets_append.mpr ⟨References.meets_names _ _,
      both (References.meets_append.mp meets).2 (References.meets_append.mp meetsMore).2⟩
  case union.union => exact References.meets_names _ _
  case inputObject.inputObject | enum.enum => exact both meets meetsMore

theorem TypeDefinition.meets_extendWith {definition extension : TypeDefinition}
    (meets : definition.references.Meets type value)
    (meetsMore : extension.references.Meets type value) :
    (definition.extendWith extension).references.Meets type value := by
  obtain ⟨usages, body⟩ := References.meets_append.mp meets
  obtain ⟨moreUsages, moreBody⟩ := References.meets_append.mp meetsMore
  exact References.meets_append.mpr
    ⟨References.meets_usages.mpr
      (List.forall_mem_append.mpr ⟨usages.supplied, moreUsages.supplied⟩),
    TypeBody.meets_extend body moreBody⟩

end

theorem Schema.meets_references {schema : Schema} {type : TypeRef → Prop} {value : Value → Prop} :
    schema.references.Meets type value ↔
      (∀ usage ∈ schema.usages, ∀ entry ∈ usage.arguments, value entry.2) ∧
        (∀ definition ∈ schema.types, definition.references.Meets type value) ∧
          ∀ definition ∈ schema.directives, definition.references.Meets type value := by
  rw [references, References.meets_append, References.meets_append, References.meets_collect,
    References.meets_collect]
  exact and_congr_left' ⟨References.Meets.supplied,
    fun supplied => { References.meets_nothing with supplied }⟩

end GraphqlReference
