import GraphqlReference.Proofs.Schema.Writable
import GraphqlReference.Proofs.Sdl.ReadNames

namespace GraphqlReference

namespace Sdl

open Text

theorem isWritable_withNonNull {type result : TypeRef} {text rest : List Char}
    (plain : ∀ deeper, type ≠ .nonNull deeper) (writable : type.IsWritable)
    (marked : withNonNull type text = (result, rest)) : result.IsWritable := by
  unfold withNonNull at marked
  split at marked
  · obtain ⟨⟩ := marked
    exact (TypeRef.isWritable_nonNull plain).mpr writable
  · obtain ⟨⟩ := marked
    exact writable

theorem reads_typeRefHere : Reads typeRefHere TypeRef.IsWritable := by
  intro text
  induction text with
  | nil => rintro _ _ ⟨⟩
  | cons c behind ih =>
      intro type rest read
      unfold typeRefHere at read
      split at read
      · cases read
      · rename_i opened
        obtain ⟨-, rfl⟩ := List.cons.inj opened
        split at read
        · rename_i inner _ found
          exact isWritable_withNonNull (fun _ => TypeRef.noConfusion)
            (TypeRef.isWritable_list.mpr (ih inner _ found)) (Option.some.inj read)
        · cases read
      · obtain ⟨⟨name, _⟩, _, marked⟩ := Option.map_eq_some_iff.mp read
        exact isWritable_withNonNull (fun _ => TypeRef.noConfusion)
          (TypeRef.isWritable_named name) marked

theorem reads_typeRef : Reads typeRef TypeRef.IsWritable :=
  fun _ => reads_typeRefHere _

theorem types_member {type : TypeRef} (writable : type.IsWritable) (usages : List DirectiveUsage)
    (defaults : List Value) :
    References.HasWritableTypes { types := [type], usages, defaults } :=
  References.meets_member.mpr ⟨writable, fun _ _ _ _ => trivial, fun _ _ => trivial⟩

theorem types_usages (usages : List DirectiveUsage) : References.HasWritableTypes { usages } :=
  References.meets_usages.mpr fun _ _ _ _ => trivial

theorem types_argument : Reads argument fun argument => argument.references.HasWritableTypes := by
  intro text result rest read
  obtain ⟨_, _, read⟩ := Option.bind_eq_some_iff.mp read
  obtain ⟨_, _, read⟩ := Option.bind_eq_some_iff.mp read
  obtain ⟨⟨type, _⟩, readType, ⟨⟩⟩ := Option.bind_eq_some_iff.mp read
  exact types_member (reads_typeRef _ _ _ readType) _ _

theorem types_arguments (text : List Char) :
    (References.collect Argument.references (arguments text).1).HasWritableTypes :=
  References.meets_collect.mpr ((reads_enclosed types_argument).optional_getD text)

theorem types_field : Reads field fun field => field.references.HasWritableTypes := by
  intro text result rest read
  obtain ⟨⟨_, behindName⟩, _, read⟩ := Option.bind_eq_some_iff.mp read
  obtain ⟨_, _, read⟩ := Option.bind_eq_some_iff.mp read
  obtain ⟨⟨type, _⟩, readType, ⟨⟩⟩ := Option.bind_eq_some_iff.mp read
  exact References.meets_append.mpr
    ⟨types_member (reads_typeRef _ _ _ readType) _ [], types_arguments behindName⟩

theorem types_enumItem (item : EnumItem) : item.references.HasWritableTypes :=
  types_usages item.usages

theorem types_body (kind : TypeKind) (interfaces : List String) :
    Reads (body kind interfaces) fun body => body.references.HasWritableTypes := by
  cases kind with
  | object | interface =>
      exact (reads_enclosed types_field).map fun _ meets => References.meets_append.mpr
        ⟨References.meets_names _ _, References.meets_collect.mpr meets⟩
  | inputObject => exact (reads_enclosed types_argument).map fun _ => References.meets_collect.mpr
  | enum =>
      have items : Reads enumItem fun _ => True := fun _ _ _ _ => trivial
      exact (reads_enclosed items).map fun _ _ =>
        References.meets_collect.mpr fun item _ => types_enumItem item
  | union =>
      intro text body rest read
      obtain ⟨_, _, ⟨⟩⟩ := Option.map_eq_some_iff.mp read
      exact References.meets_names _ _
  | scalar => exact fun _ _ _ read => nomatch read

theorem types_emptyBody (kind : TypeKind) (interfaces : List String) :
    (emptyBody kind interfaces).references.HasWritableTypes := by
  cases kind with
  | object | interface =>
      exact References.meets_append.mpr ⟨References.meets_names _ _, References.meets_nothing⟩
  | union | inputObject | scalar | enum => exact References.meets_nothing

theorem types_optionalBody (kind : TypeKind) (interfaces : List String) (text : List Char) :
    ((optional (body kind interfaces) text).1.getD
      (emptyBody kind interfaces)).references.HasWritableTypes := by
  have found := (types_body kind interfaces).optional text
  cases members : (optional (body kind interfaces) text).1 with
  | none => exact types_emptyBody kind interfaces
  | some members => exact found _ ‹_›

/-- What a written definition refers to, apart from the roots that a schema block names. -/
def WrittenDefinition.references : WrittenDefinition → References
  | .schema _ usages _ => { usages }
  | .type _ definition => definition.references
  | .directive definition _ => definition.references

theorem types_typeDefinition (kind : TypeKind) :
    Reads (typeDefinition kind) fun definition => definition.references.HasWritableTypes := by
  intro text result rest read
  obtain ⟨_, _, read⟩ := Option.bind_eq_some_iff.mp read
  obtain ⟨_, _, ⟨⟩⟩ := Option.bind_eq_some_iff.mp read
  exact References.meets_append.mpr ⟨types_usages _, types_optionalBody kind _ _⟩

theorem types_typeExtension (kind : TypeKind) :
    Reads (typeExtension kind) fun definition => definition.references.HasWritableTypes := by
  intro text result rest read
  obtain ⟨_, _, read⟩ := Option.bind_eq_some_iff.mp read
  obtain ⟨_, _, read⟩ := Option.bind_eq_some_iff.mp read
  obtain ⟨_, _, read⟩ := Option.bind_eq_some_iff.mp read
  dsimp only at read
  split at read
  · rename_i members _ readBody
    obtain ⟨⟩ := read
    exact References.meets_append.mpr ⟨types_usages _, types_body _ _ _ _ _ readBody⟩
  · split at read
    · obtain ⟨⟩ := read
      exact References.meets_append.mpr ⟨types_usages _, types_emptyBody kind _⟩
    · cases read

theorem types_directiveDefinition :
    Reads directiveDefinition fun definition => definition.references.HasWritableTypes := by
  intro text result rest read
  obtain ⟨_, _, read⟩ := Option.bind_eq_some_iff.mp read
  obtain ⟨_, _, read⟩ := Option.bind_eq_some_iff.mp read
  obtain ⟨⟨_, behindName⟩, _, read⟩ := Option.bind_eq_some_iff.mp read
  obtain ⟨_, _, read⟩ := Option.bind_eq_some_iff.mp read
  obtain ⟨_, _, ⟨⟩⟩ := Option.bind_eq_some_iff.mp read
  exact types_arguments behindName

theorem types_definition :
    Reads definition fun definition => definition.references.HasWritableTypes := by
  refine reads_definition_of ?_ ?_ types_typeDefinition types_typeExtension
    types_directiveDefinition
  case refine_1 =>
    intro text result rest found
    obtain ⟨_, usages, _, rfl⟩ := schema_schemaDefinition text result rest found
    exact types_usages usages
  case refine_2 =>
    intro text result rest found
    obtain ⟨_, usages, _, rfl⟩ := schema_schemaExtension text result rest found
    exact types_usages usages

end Sdl

end GraphqlReference
