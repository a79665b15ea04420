import Mathlib.Data.Option.Basic
import GraphqlReference.Proofs.Outcome
import GraphqlReference.Proofs.Text.Reading
import GraphqlReference.Sdl.Document

namespace GraphqlReference.Sdl

open Text

section

variable {property : WrittenDefinition → Prop}

theorem reads_definition_of (schemaDefinitions : Reads schemaDefinition property)
    (schemaExtensions : Reads schemaExtension property)
    (typeDefinitions : ∀ kind, Reads (typeDefinition kind) property)
    (typeExtensions : ∀ kind, Reads (typeExtension kind) property)
    (directiveDefinitions : Reads directiveDefinition property) : Reads definition property := by
  have types : Reads (fun text => typeKinds.findSome? fun kind =>
      typeDefinition kind text <|> typeExtension kind text) property := by
    intro text result rest read
    obtain ⟨kind, _, read⟩ := List.exists_of_findSome?_eq_some read
    exact ((typeDefinitions kind).orElse (typeExtensions kind)) _ _ _ read
  exact schemaDefinitions.orElse (schemaExtensions.orElse (types.orElse directiveDefinitions))

theorem forall_definitions (reads : Reads definition property) {source : List Char}
    {written : List WrittenDefinition} (read : definitions? source = some written) :
    ∀ definition ∈ written, property definition := by
  unfold definitions? at read
  split at read
  · rename_i found
    split at read
    · obtain ⟨⟩ := read
      exact reads.some1 _ _ _ found
    · cases read
  · cases read

end

/-- What a definition declares is not built in. -/
def WrittenDefinition.IsUser : WrittenDefinition → Prop
  | .schema .. => True
  | .type _ definition => definition.origin = .user
  | .directive definition _ => definition.origin = .user

def Definition.IsUser : Definition → Prop
  | .schema _ => True
  | .type definition | .extension definition => definition.origin = .user
  | .directive definition => definition.origin = .user

theorem schema_schemaDefinition : Reads schemaDefinition fun written =>
    ∃ extending usages roots, written = .schema extending usages roots := by
  intro text result rest read
  obtain ⟨_, _, read⟩ := Option.bind_eq_some_iff.mp read
  obtain ⟨_, _, ⟨⟩⟩ := Option.bind_eq_some_iff.mp read
  exact ⟨_, _, _, rfl⟩

theorem schema_schemaExtension : Reads schemaExtension fun written =>
    ∃ extending usages roots, written = .schema extending usages roots := by
  intro text result rest read
  obtain ⟨_, _, read⟩ := Option.bind_eq_some_iff.mp read
  obtain ⟨_, _, read⟩ := Option.bind_eq_some_iff.mp read
  dsimp only at read
  split at read
  · obtain ⟨⟩ := read
    exact ⟨_, _, _, rfl⟩
  · split at read
    · cases read
    · obtain ⟨⟩ := read
      exact ⟨_, _, _, rfl⟩

theorem type_typeDefinition (kind : TypeKind) : Reads (typeDefinition kind) fun written =>
    ∃ extending definition, written = .type extending definition ∧ definition.origin = .user := by
  intro text result rest read
  obtain ⟨_, _, read⟩ := Option.bind_eq_some_iff.mp read
  obtain ⟨_, _, ⟨⟩⟩ := Option.bind_eq_some_iff.mp read
  exact ⟨_, _, rfl, rfl⟩

theorem type_typeExtension (kind : TypeKind) : Reads (typeExtension kind) fun written =>
    ∃ extending definition, written = .type extending definition ∧ definition.origin = .user := by
  intro text result rest read
  obtain ⟨_, _, read⟩ := Option.bind_eq_some_iff.mp read
  obtain ⟨_, _, read⟩ := Option.bind_eq_some_iff.mp read
  obtain ⟨_, _, read⟩ := Option.bind_eq_some_iff.mp read
  dsimp only at read
  split at read
  · obtain ⟨⟩ := read
    exact ⟨_, _, rfl, rfl⟩
  · split at read
    · obtain ⟨⟩ := read
      exact ⟨_, _, rfl, rfl⟩
    · cases read

theorem reads_user : Reads definition WrittenDefinition.IsUser := by
  refine reads_definition_of ?_ ?_ (fun kind => ?_) (fun kind => ?_) ?_
  case refine_1 =>
    intro text result rest read
    obtain ⟨_, _, _, rfl⟩ := schema_schemaDefinition text result rest read
    exact trivial
  case refine_2 =>
    intro text result rest read
    obtain ⟨_, _, _, rfl⟩ := schema_schemaExtension text result rest read
    exact trivial
  case refine_3 =>
    intro text result rest read
    obtain ⟨_, _, rfl, user⟩ := type_typeDefinition kind text result rest read
    exact user
  case refine_4 =>
    intro text result rest read
    obtain ⟨_, _, rfl, user⟩ := type_typeExtension kind text result rest read
    exact user
  case refine_5 =>
    intro text result rest read
    obtain ⟨_, _, read⟩ := Option.bind_eq_some_iff.mp read
    obtain ⟨_, _, read⟩ := Option.bind_eq_some_iff.mp read
    obtain ⟨_, _, read⟩ := Option.bind_eq_some_iff.mp read
    obtain ⟨_, _, read⟩ := Option.bind_eq_some_iff.mp read
    obtain ⟨_, _, ⟨⟩⟩ := Option.bind_eq_some_iff.mp read
    rfl

/-- No other reader reads the definition of a directive. -/
theorem directiveDefinition_of_definition {text rest : List Char} {written : DirectiveDefinition}
    {places : DirectivePlaces} (read : definition text = some (.directive written places, rest)) :
    directiveDefinition text = some (.directive written places, rest) := by
  unfold definition at read
  rcases (Option.orElse_eq_some _ _ _).mp read with found | ⟨_, read⟩
  · obtain ⟨_, _, _, ⟨⟩⟩ := schema_schemaDefinition _ _ _ found
  rcases (Option.orElse_eq_some _ _ _).mp read with found | ⟨_, read⟩
  · obtain ⟨_, _, _, ⟨⟩⟩ := schema_schemaExtension _ _ _ found
  rcases (Option.orElse_eq_some _ _ _).mp read with found | ⟨_, read⟩
  · obtain ⟨kind, _, found⟩ := List.exists_of_findSome?_eq_some found
    rcases (Option.orElse_eq_some _ _ _).mp found with found | ⟨_, found⟩
    · obtain ⟨_, _, ⟨⟩, _⟩ := type_typeDefinition kind _ _ _ found
    · obtain ⟨_, _, ⟨⟩, _⟩ := type_typeExtension kind _ _ _ found
  · exact read

section

variable {source : List Char} {definition : Definition}

theorem resolve_schema_eq_ok {extending : Bool} {usages : List DirectiveUsage}
    {roots : List (Operation × String)} :
    (WrittenDefinition.schema extending usages roots).resolve source = .ok definition ↔
      ∃ resolved block, resolveUsages usages = some resolved ∧
        schemaBlock extending resolved roots = .ok block ∧ definition = .schema block := by
  unfold WrittenDefinition.resolve
  dsimp only
  cases resolveUsages usages with
  | none => simp
  | some resolved =>
      cases made : schemaBlock extending resolved roots with
      | error fault => simp [made, Except.map]
      | ok block => simp [made, Except.map, eq_comm]

theorem resolve_type_eq_ok {extending : Bool} {written : TypeDefinition} :
    (WrittenDefinition.type extending written).resolve source = .ok definition ↔
      ∃ resolved, resolveType written = some resolved ∧
        definition = if extending then .extension resolved else .type resolved := by
  unfold WrittenDefinition.resolve
  dsimp only
  cases resolveType written with
  | none => simp
  | some resolved => simp [eq_comm]

theorem resolve_directive_eq_ok {written : DirectiveDefinition} {places : DirectivePlaces} :
    (WrittenDefinition.directive written places).resolve source = .ok definition ↔
      ∃ arguments, written.arguments.mapM resolveArgument = some arguments ∧
        definition = .directive { written with
          arguments
          repeatable := declaresRepeatable source written.name.toList
            (positionBefore source places.name) (positionBefore source places.location) } := by
  unfold WrittenDefinition.resolve
  dsimp only
  cases written.arguments.mapM resolveArgument with
  | none => simp
  | some arguments => simp [eq_comm]

theorem origin_resolveType {written resolved : TypeDefinition}
    (changed : resolveType written = some resolved) : resolved.origin = written.origin := by
  obtain ⟨_, _, changed⟩ := Option.bind_eq_some_iff.mp changed
  obtain ⟨_, _, ⟨⟩⟩ := Option.bind_eq_some_iff.mp changed
  rfl

theorem isUser_resolve {written : WrittenDefinition} (user : written.IsUser)
    (resolved : written.resolve source = .ok definition) : definition.IsUser := by
  cases written with
  | schema extending usages roots =>
      obtain ⟨_, _, _, _, rfl⟩ := resolve_schema_eq_ok.mp resolved
      exact trivial
  | type extending written =>
      obtain ⟨_, changed, rfl⟩ := resolve_type_eq_ok.mp resolved
      have origin := (origin_resolveType changed).trans user
      cases extending <;> exact origin
  | directive written places =>
      obtain ⟨_, _, rfl⟩ := resolve_directive_eq_ok.mp resolved
      exact user

theorem readDocument_eq_ok {definitions : List Definition} :
    readDocument source = .ok definitions ↔ ∃ written, definitions? source = some written ∧
      List.Forall₂ (fun written definition => written.resolve source = .ok definition)
        written definitions := by
  unfold readDocument
  cases definitions? source with
  | none => simp
  | some written => simp [mapM_eq_ok]

end

/-- What resolving makes of all that can be read holds of every definition of a document. -/
theorem forall_readDocument {written : WrittenDefinition → Prop} {property : Definition → Prop}
    (reads : Reads definition written) {source : List Char}
    (resolves : ∀ {origin definition}, written origin → origin.resolve source = .ok definition →
      property definition)
    {definitions : List Definition} (read : readDocument source = .ok definitions) :
    ∀ definition ∈ definitions, property definition := by
  obtain ⟨origins, found, resolved⟩ := readDocument_eq_ok.mp read
  intro definition member
  obtain ⟨origin, inside, resolvedHere⟩ := mem_of_forall₂ resolved member
  exact resolves (forall_definitions reads found origin inside) resolvedHere

/-- No definition of a document passes for a built-in one. -/
theorem isUser_readDocument {source : List Char} {definitions : List Definition}
    (read : readDocument source = .ok definitions) :
    ∀ definition ∈ definitions, definition.IsUser :=
  forall_readDocument reads_user isUser_resolve read

end GraphqlReference.Sdl
