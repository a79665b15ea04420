import GraphqlReference.Proofs.Sdl.Loading
import GraphqlReference.Proofs.Sdl.ReadNames

namespace GraphqlReference

theorem forall_collectNamed {α : Type} {property : String × α → Prop} {entries : List (String × α)}
    (kept : ∀ entry ∈ entries, property entry) :
    ∀ entry ∈ collectNamed entries, property entry := by
  have collected : ∀ start : List (String × α), (∀ entry ∈ start, property entry) →
      ∀ entry ∈ entries.foldl (fun collected entry => setNamed collected entry.1 entry.2) start,
        property entry := by
    induction entries with
    | nil => exact fun _ holds => holds
    | cons first rest ih =>
        obtain ⟨keptFirst, keptRest⟩ := List.forall_mem_cons.mp kept
        exact fun start holds => ih keptRest _ (forall_setNamed holds keptFirst)
  exact collected [] fun _ member => absurd member List.not_mem_nil

namespace Sdl

mutual

theorem allNamed_resolveValue {value resolved : Value} (named : AllNamed value.names)
    (found : resolveValue value = some resolved) : AllNamed resolved.names := by
  cases value with
  | float number =>
      unfold resolveValue at found
      split at found
      · obtain ⟨⟩ := found
        exact named
      · cases found
  | list items =>
      obtain ⟨results, foundItems, ⟨⟩⟩ := Option.map_eq_some_iff.mp found
      exact allNamed_resolveItems named foundItems
  | object fields =>
      obtain ⟨results, foundFields, ⟨⟩⟩ := Option.map_eq_some_iff.mp found
      rw [Value.names, fieldNames_eq] at named ⊢
      have entries : ∀ entry ∈ fields, IsNamed entry.1 ∧ AllNamed entry.2.names :=
        fun entry member => List.forall_mem_cons.mp (named.of_flatMap entry member)
      exact allNamed_flatMap fun entry member => List.forall_mem_cons.mpr
        (forall_collectNamed (forall_resolveFields IsNamed entries foundFields) entry member)
  | boolean | int | string | enum | null =>
      obtain ⟨⟩ := found
      exact named

theorem allNamed_resolveItems {items resolved : List Value}
    (named : AllNamed (Value.itemNames items))
    (found : resolveItems items = some resolved) : AllNamed (Value.itemNames resolved) := by
  cases items with
  | nil =>
      obtain ⟨⟩ := found
      exact named
  | cons item rest =>
      obtain ⟨namedItem, namedRest⟩ := List.forall_mem_append.mp named
      obtain ⟨first, foundFirst, found⟩ := Option.bind_eq_some_iff.mp found
      obtain ⟨more, foundMore, ⟨⟩⟩ := Option.bind_eq_some_iff.mp found
      exact List.forall_mem_append.mpr
        ⟨allNamed_resolveValue namedItem foundFirst, allNamed_resolveItems namedRest foundMore⟩

theorem forall_resolveFields (property : String → Prop) {fields resolved : List (String × Value)}
    (named : ∀ entry ∈ fields, property entry.1 ∧ AllNamed entry.2.names)
    (found : resolveFields fields = some resolved) :
    ∀ entry ∈ resolved, property entry.1 ∧ AllNamed entry.2.names := by
  cases fields with
  | nil =>
      obtain ⟨⟩ := found
      exact fun _ member => absurd member List.not_mem_nil
  | cons field rest =>
      obtain ⟨name, value⟩ := field
      obtain ⟨⟨namedHere, namedValue⟩, namedRest⟩ := List.forall_mem_cons.mp named
      obtain ⟨first, foundFirst, found⟩ := Option.bind_eq_some_iff.mp found
      obtain ⟨more, foundMore, ⟨⟩⟩ := Option.bind_eq_some_iff.mp found
      exact List.forall_mem_cons.mpr
        ⟨⟨namedHere, allNamed_resolveValue namedValue foundFirst⟩,
          forall_resolveFields property namedRest foundMore⟩

end

theorem allNamed_resolveUsage {usage resolved : DirectiveUsage} (named : AllNamed usage.names)
    (found : resolveUsage usage = some resolved) : AllNamed resolved.names := by
  obtain ⟨arguments, foundArguments, ⟨⟩⟩ := Option.bind_eq_some_iff.mp found
  have entries : ∀ entry ∈ usage.arguments, True ∧ AllNamed entry.2.names := fun entry member =>
    ⟨trivial, named.of_flatMap entry member⟩
  have kept : ∀ entry ∈ arguments, True ∧ AllNamed entry.2.names :=
    forall_resolveFields (fun _ => True) entries foundArguments
  exact allNamed_flatMap fun entry member =>
    (forall_collectNamed kept entry member).2

theorem allNamed_mapM {α : Type} {names : α → List String} {resolve : α → Option α}
    (resolved : ∀ {item result}, AllNamed (names item) → resolve item = some result →
      AllNamed (names result))
    {items results : List α} (named : AllNamed (items.flatMap names))
    (found : items.mapM resolve = some results) : AllNamed (results.flatMap names) :=
  allNamed_flatMap fun _ member =>
    have ⟨item, inside, here⟩ := mem_of_mapM_some found member
    resolved (named.of_flatMap item inside) here

theorem allNamed_resolveUsages {usages resolved : List DirectiveUsage}
    (named : AllNamed (usages.flatMap DirectiveUsage.names))
    (found : resolveUsages usages = some resolved) :
    AllNamed (resolved.flatMap DirectiveUsage.names) :=
  allNamed_mapM allNamed_resolveUsage named found

theorem allNamed_resolveArgument {argument resolved : Argument} (named : AllNamed argument.names)
    (found : resolveArgument argument = some resolved) : AllNamed resolved.names := by
  obtain ⟨default, foundDefault, found⟩ := Option.bind_eq_some_iff.mp found
  obtain ⟨usages, foundUsages, ⟨⟩⟩ := Option.bind_eq_some_iff.mp found
  obtain ⟨namedHere, namedInside⟩ := allNamed_cons.mp named
  obtain ⟨namedDefault, namedUsages⟩ := allNamed_append.mp namedInside
  refine allNamed_cons.mpr ⟨namedHere, allNamed_append.mpr
    ⟨?_, allNamed_resolveUsages namedUsages foundUsages⟩⟩
  cases written : argument.default with
  | none =>
      rw [written] at foundDefault
      obtain ⟨⟩ := foundDefault
      exact allNamed_nil
  | some value =>
      rw [written] at foundDefault namedDefault
      obtain ⟨result, foundValue, ⟨⟩⟩ := Option.map_eq_some_iff.mp foundDefault
      exact allNamed_resolveValue namedDefault foundValue

theorem allNamed_resolveField {field resolved : Field} (named : AllNamed field.names)
    (found : resolveField field = some resolved) : AllNamed resolved.names := by
  obtain ⟨arguments, foundArguments, found⟩ := Option.bind_eq_some_iff.mp found
  obtain ⟨usages, foundUsages, ⟨⟩⟩ := Option.bind_eq_some_iff.mp found
  obtain ⟨namedHere, namedInside⟩ := allNamed_cons.mp named
  obtain ⟨namedArguments, namedUsages⟩ := allNamed_append.mp namedInside
  exact allNamed_cons.mpr ⟨namedHere, allNamed_append.mpr
    ⟨allNamed_mapM allNamed_resolveArgument namedArguments foundArguments,
      allNamed_resolveUsages namedUsages foundUsages⟩⟩

theorem allNamed_resolveItem {item resolved : EnumItem} (named : AllNamed item.names)
    (found : resolveItem item = some resolved) : AllNamed resolved.names := by
  obtain ⟨usages, foundUsages, ⟨⟩⟩ := Option.bind_eq_some_iff.mp found
  obtain ⟨namedHere, namedUsages⟩ := allNamed_cons.mp named
  exact allNamed_cons.mpr ⟨namedHere, allNamed_resolveUsages namedUsages foundUsages⟩

theorem allNamed_resolveBody {body resolved : TypeBody} (named : AllNamed body.names)
    (found : resolveBody body = some resolved) : AllNamed resolved.names := by
  cases body with
  | object | interface =>
      obtain ⟨fields, foundFields, ⟨⟩⟩ := Option.map_eq_some_iff.mp found
      exact allNamed_mapM allNamed_resolveField named foundFields
  | inputObject =>
      obtain ⟨fields, foundFields, ⟨⟩⟩ := Option.map_eq_some_iff.mp found
      exact allNamed_mapM allNamed_resolveArgument named foundFields
  | enum =>
      obtain ⟨items, foundItems, ⟨⟩⟩ := Option.map_eq_some_iff.mp found
      exact allNamed_mapM allNamed_resolveItem named foundItems
  | union | scalar =>
      obtain ⟨⟩ := found
      exact named

theorem allNamed_resolveType {definition resolved : TypeDefinition}
    (named : AllNamed definition.names) (found : resolveType definition = some resolved) :
    AllNamed resolved.names := by
  obtain ⟨usages, foundUsages, found⟩ := Option.bind_eq_some_iff.mp found
  obtain ⟨body, foundBody, ⟨⟩⟩ := Option.bind_eq_some_iff.mp found
  obtain ⟨namedHere, namedInside⟩ := allNamed_cons.mp named
  obtain ⟨namedUsages, namedBody⟩ := allNamed_append.mp namedInside
  exact allNamed_cons.mpr ⟨namedHere, allNamed_append.mpr
    ⟨allNamed_resolveUsages namedUsages foundUsages, allNamed_resolveBody namedBody foundBody⟩⟩

def Definition.names : Definition → List String
  | .schema block => block.usages.flatMap DirectiveUsage.names
  | .type definition | .extension definition => definition.names
  | .directive definition => definition.names

theorem usages_schemaBlock {extending : Bool} {usages : List DirectiveUsage}
    {roots : List (Operation × String)} {block : SchemaBlock}
    (made : schemaBlock extending usages roots = .ok block) : block.usages = usages := by
  obtain ⟨collected, _, made⟩ := bind_eq_ok.mp made
  split at made
  · cases made
  · obtain ⟨⟩ := made
    rfl

theorem allNamed_resolve {source : List Char} {written : WrittenDefinition}
    {definition : Definition} (named : AllNamed written.names)
    (found : written.resolve source = .ok definition) : AllNamed definition.names := by
  cases written with
  | schema extending usages roots =>
      obtain ⟨resolved, block, foundUsages, made, rfl⟩ := resolve_schema_eq_ok.mp found
      have kept := allNamed_resolveUsages named foundUsages
      rw [← usages_schemaBlock made] at kept
      exact kept
  | type extending written =>
      obtain ⟨_, foundType, rfl⟩ := resolve_type_eq_ok.mp found
      cases extending <;> exact allNamed_resolveType named foundType
  | directive written places =>
      obtain ⟨_, foundArguments, rfl⟩ := resolve_directive_eq_ok.mp found
      exact allNamed_mapM allNamed_resolveArgument named foundArguments

theorem allNamed_extendWith {definition extension : TypeDefinition}
    (named : AllNamed definition.names) (namedMore : AllNamed extension.names) :
    AllNamed (definition.extendWith extension).names := by
  have extended {body more : TypeBody} (here : AllNamed body.names) (there : AllNamed more.names) :
      AllNamed (body.extend more).names := by
    cases body <;> cases more <;>
      first
        | exact here
        | exact allNamed_flatMap_append here there
  obtain ⟨name, others⟩ := allNamed_cons.mp named
  obtain ⟨usages, body⟩ := allNamed_append.mp others
  obtain ⟨_, othersMore⟩ := allNamed_cons.mp namedMore
  obtain ⟨usagesMore, bodyMore⟩ := allNamed_append.mp othersMore
  exact allNamed_cons.mpr ⟨name, allNamed_append.mpr
    ⟨allNamed_flatMap_append usages usagesMore, extended body bodyMore⟩⟩

theorem allNamed_scalars : ∀ scalar ∈ BuiltIn.scalars, AllNamed scalar.names := by
  have visible : ∀ scalar ∈ BuiltIn.scalars, ∀ name ∈ scalar.names,
      Text.isVisible name.toList = true := by decide
  exact visible

theorem allNamed_directives : ∀ directive ∈ BuiltIn.directives, AllNamed directive.names := by
  have visible : ∀ directive ∈ BuiltIn.directives, ∀ name ∈ directive.names,
      Text.isVisible name.toList = true := by decide
  exact visible

/-- All names of a schema that has been read from a document can be seen. -/
theorem allNamed_parse {source : String} {schema : Schema} (parsed : parse source = .ok schema) :
    AllNamed schema.names := by
  obtain ⟨definitions, read, loaded⟩ := bind_eq_ok.mp parsed
  have named : ∀ definition ∈ definitions, AllNamed definition.names :=
    forall_readDocument reads_definition allNamed_resolve read
  have user := isUser_readDocument read
  have usages := forall_usages user loaded fun block member => (named _ member).of_flatMap
  have types := forall_types user loaded allNamed_scalars (fun _ => named _)
    fun _ _ holds member => allNamed_extendWith holds (named _ member)
  have directives := forall_directives user loaded allNamed_directives fun _ => named _
  exact allNamed_append.mpr ⟨allNamed_flatMap usages,
    allNamed_append.mpr ⟨allNamed_flatMap types, allNamed_flatMap directives⟩⟩

end Sdl

end GraphqlReference
