import GraphqlReference.Proofs.Sdl.LoadedNames
import GraphqlReference.Proofs.Sdl.ReadTypes

namespace GraphqlReference

namespace Sdl

mutual

theorem isFinite_resolveValue {value resolved : Value}
    (found : resolveValue value = some resolved) : resolved.IsFinite := by
  cases value with
  | float number =>
      unfold resolveValue at found
      split at found
      · rename_i finite
        obtain ⟨⟩ := found
        exact List.forall_mem_singleton.mpr finite
      · cases found
  | list items =>
      obtain ⟨results, foundItems, ⟨⟩⟩ := Option.map_eq_some_iff.mp found
      exact Value.isFinite_list.mpr (isFinite_resolveItems foundItems)
  | object fields =>
      obtain ⟨results, foundFields, ⟨⟩⟩ := Option.map_eq_some_iff.mp found
      exact Value.isFinite_object.mpr (forall_collectNamed (isFinite_resolveFields foundFields))
  | boolean | int | string | enum | null =>
      obtain ⟨⟩ := found
      exact fun _ member => absurd member List.not_mem_nil

theorem isFinite_resolveItems {items resolved : List Value}
    (found : resolveItems items = some resolved) : ∀ item ∈ resolved, item.IsFinite := by
  cases items with
  | nil =>
      obtain ⟨⟩ := found
      exact fun _ member => absurd member List.not_mem_nil
  | cons item rest =>
      obtain ⟨first, foundFirst, found⟩ := Option.bind_eq_some_iff.mp found
      obtain ⟨more, foundMore, ⟨⟩⟩ := Option.bind_eq_some_iff.mp found
      exact List.forall_mem_cons.mpr
        ⟨isFinite_resolveValue foundFirst, isFinite_resolveItems foundMore⟩

theorem isFinite_resolveFields {fields resolved : List (String × Value)}
    (found : resolveFields fields = some resolved) : ∀ entry ∈ resolved, entry.2.IsFinite := by
  cases fields with
  | nil =>
      obtain ⟨⟩ := found
      exact fun _ member => absurd member List.not_mem_nil
  | cons field rest =>
      obtain ⟨name, value⟩ := field
      obtain ⟨first, foundFirst, found⟩ := Option.bind_eq_some_iff.mp found
      obtain ⟨more, foundMore, ⟨⟩⟩ := Option.bind_eq_some_iff.mp found
      exact List.forall_mem_cons.mpr
        ⟨isFinite_resolveValue foundFirst, isFinite_resolveFields foundMore⟩

end

theorem isFinite_resolveUsages {usages resolved : List DirectiveUsage}
    (found : resolveUsages usages = some resolved) :
    ∀ usage ∈ resolved, ∀ entry ∈ usage.arguments, entry.2.IsFinite := by
  intro usage member
  obtain ⟨written, _, changed⟩ := mem_of_mapM_some found member
  obtain ⟨arguments, foundArguments, ⟨⟩⟩ := Option.bind_eq_some_iff.mp changed
  exact forall_collectNamed (isFinite_resolveFields foundArguments)

theorem isFinite_resolveDefault {default resolved : Option Value}
    (found : resolveDefault default = some resolved) :
    ∀ value ∈ resolved.toList, value.IsFinite := by
  cases default with
  | none =>
      obtain ⟨⟩ := found
      exact fun _ member => absurd member List.not_mem_nil
  | some value =>
      obtain ⟨result, foundValue, ⟨⟩⟩ := Option.map_eq_some_iff.mp found
      exact List.forall_mem_singleton.mpr (isFinite_resolveValue foundValue)

theorem isWritable_mapM {α : Type} {references : α → References} {resolve : α → Option α}
    (each : ∀ {item result}, (references item).HasWritableTypes → resolve item = some result →
      (references result).IsWritable)
    {items results : List α} (types : (References.collect references items).HasWritableTypes)
    (found : items.mapM resolve = some results) :
    (References.collect references results).IsWritable :=
  References.meets_collect.mpr fun _ member =>
    have ⟨item, inside, here⟩ := mem_of_mapM_some found member
    each (References.meets_collect.mp types item inside) here

theorem isWritable_resolveArgument {argument resolved : Argument}
    (types : argument.references.HasWritableTypes)
    (found : resolveArgument argument = some resolved) : resolved.references.IsWritable := by
  obtain ⟨default, foundDefault, found⟩ := Option.bind_eq_some_iff.mp found
  obtain ⟨usages, foundUsages, ⟨⟩⟩ := Option.bind_eq_some_iff.mp found
  exact References.meets_member.mpr ⟨(References.meets_member.mp types).1,
    isFinite_resolveUsages foundUsages, isFinite_resolveDefault foundDefault⟩

theorem isWritable_resolveField {field resolved : Field}
    (types : field.references.HasWritableTypes)
    (found : resolveField field = some resolved) : resolved.references.IsWritable := by
  obtain ⟨arguments, foundArguments, found⟩ := Option.bind_eq_some_iff.mp found
  obtain ⟨usages, foundUsages, ⟨⟩⟩ := Option.bind_eq_some_iff.mp found
  obtain ⟨own, ofArguments⟩ := References.meets_append.mp types
  have nothing : ∀ value ∈ ([] : List Value), value.IsFinite :=
    fun _ member => absurd member List.not_mem_nil
  exact References.meets_append.mpr
    ⟨References.meets_member.mpr ⟨(References.meets_member.mp own).1,
      isFinite_resolveUsages foundUsages, nothing⟩,
    isWritable_mapM isWritable_resolveArgument ofArguments foundArguments⟩

theorem isWritable_resolveItem {item resolved : EnumItem}
    (found : resolveItem item = some resolved) : resolved.references.IsWritable := by
  obtain ⟨usages, foundUsages, ⟨⟩⟩ := Option.bind_eq_some_iff.mp found
  exact References.meets_usages.mpr (isFinite_resolveUsages foundUsages)

theorem isWritable_resolveBody {body resolved : TypeBody}
    (types : body.references.HasWritableTypes) (found : resolveBody body = some resolved) :
    resolved.references.IsWritable := by
  cases body with
  | object | interface =>
      obtain ⟨fields, foundFields, ⟨⟩⟩ := Option.map_eq_some_iff.mp found
      exact References.meets_append.mpr ⟨References.meets_names _ _,
        isWritable_mapM isWritable_resolveField (References.meets_append.mp types).2 foundFields⟩
  | inputObject =>
      obtain ⟨fields, foundFields, ⟨⟩⟩ := Option.map_eq_some_iff.mp found
      exact isWritable_mapM isWritable_resolveArgument types foundFields
  | enum =>
      obtain ⟨items, foundItems, ⟨⟩⟩ := Option.map_eq_some_iff.mp found
      exact isWritable_mapM (fun _ => isWritable_resolveItem) types foundItems
  | union | scalar =>
      obtain ⟨⟩ := found
      exact References.meets_names _ _

theorem isWritable_resolveType {definition resolved : TypeDefinition}
    (types : definition.references.HasWritableTypes)
    (found : resolveType definition = some resolved) : resolved.references.IsWritable := by
  obtain ⟨usages, foundUsages, found⟩ := Option.bind_eq_some_iff.mp found
  obtain ⟨body, foundBody, ⟨⟩⟩ := Option.bind_eq_some_iff.mp found
  exact References.meets_append.mpr
    ⟨References.meets_usages.mpr (isFinite_resolveUsages foundUsages),
      isWritable_resolveBody (References.meets_append.mp types).2 foundBody⟩

def Definition.references : Definition → References
  | .schema block => { usages := block.usages }
  | .type definition | .extension definition => definition.references
  | .directive definition => definition.references

theorem isWritable_resolve {source : List Char} {written : WrittenDefinition}
    {definition : Definition} (types : written.references.HasWritableTypes)
    (found : written.resolve source = .ok definition) : definition.references.IsWritable := by
  cases written with
  | schema extending usages roots =>
      obtain ⟨resolved, block, foundUsages, made, rfl⟩ := resolve_schema_eq_ok.mp found
      have finite := isFinite_resolveUsages foundUsages
      rw [← usages_schemaBlock made] at finite
      exact References.meets_usages.mpr finite
  | type extending written =>
      obtain ⟨_, foundType, rfl⟩ := resolve_type_eq_ok.mp found
      cases extending <;> exact isWritable_resolveType types foundType
  | directive written places =>
      obtain ⟨_, foundArguments, rfl⟩ := resolve_directive_eq_ok.mp found
      exact isWritable_mapM isWritable_resolveArgument types foundArguments

theorem isWritable_scalars : (References.collect TypeDefinition.references
    BuiltIn.scalars).IsWritable :=
  References.meets_nothing

theorem isWritable_directives : (References.collect DirectiveDefinition.references
    BuiltIn.directives).IsWritable where
  types := by
    have written : (References.collect DirectiveDefinition.references BuiltIn.directives).types =
        [.nonNull (.named "Boolean"), .nonNull (.named "Boolean"), .named "String",
          .nonNull (.named "String")] := rfl
    simp [written, TypeRef.IsWritable, TypeRef.layers]
  supplied _ member := absurd member List.not_mem_nil
  defaults := by
    have written : (References.collect DirectiveDefinition.references BuiltIn.directives).defaults =
        [.string BuiltIn.defaultDeprecationReason] := rfl
    simp [written, Value.IsFinite, Value.numbers]

/-- All that a schema from a document refers to can be written. -/
theorem isWritable_parse {source : String} {schema : Schema}
    (parsed : parse source = .ok schema) : schema.references.IsWritable := by
  obtain ⟨definitions, read, loaded⟩ := bind_eq_ok.mp parsed
  have user := isUser_readDocument read
  have writable : ∀ definition ∈ definitions, definition.references.IsWritable :=
    forall_readDocument types_definition isWritable_resolve read
  refine Schema.meets_references.mpr ⟨?_, ?_, ?_⟩
  · exact forall_usages user loaded fun block member => (writable _ member).supplied
  · exact forall_types user loaded (References.meets_collect.mp isWritable_scalars)
      (fun _ => writable _)
      fun _ _ meets member => TypeDefinition.meets_extendWith meets (writable _ member)
  · exact forall_directives user loaded (References.meets_collect.mp isWritable_directives)
      fun _ => writable _

end Sdl

end GraphqlReference
