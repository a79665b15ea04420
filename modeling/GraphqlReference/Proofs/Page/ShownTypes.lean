import GraphqlReference.Proofs.Page.Layout
import GraphqlReference.Proofs.Page.PlainText
import GraphqlReference.Proofs.Sdl.WrittenTypes

namespace GraphqlReference.Page

open Html

theorem shows_typeDisplay {type : TypeRef} {shown : Fragment}
    (printed : typeDisplay type = .ok shown) : shown.Shows type.write := by
  induction type generalizing shown with
  | named name =>
      obtain ⟨⟩ := printed
      exact Fragment.shows_text name.toList
  | list inner ih =>
      obtain ⟨content, printedInner, ⟨⟩⟩ := bind_eq_ok.mp printed
      have opening : (Fragment.span "bracket-square" "[").Shows ['['] :=
        Fragment.shows_span "[" (by decide)
      have closing : (Fragment.span "bracket-square" "]").Shows [']'] :=
        Fragment.shows_span "]" (by decide)
      exact (opening.append (ih printedInner)).append closing
  | nonNull inner ih =>
      cases inner with
      | nonNull => cases printed
      | named | list =>
          obtain ⟨content, printedInner, ⟨⟩⟩ := bind_eq_ok.mp printed
          have mark : (Fragment.span "exclamation-mark" "!").Shows ['!'] :=
            Fragment.shows_span "!" (by decide)
          exact (ih printedInner).append mark

/-- A non-null modifier directly around another one. -/
def isDoubled : TypeRef → Bool
  | .nonNull (.nonNull _) => true
  | _ => false

/-- The outermost doubled modifier is the one that is reported. -/
theorem typeDisplay_doubled {type doubled : TypeRef}
    (found : type.layers.find? isDoubled = some doubled) :
    typeDisplay type = .error (.unsupportedTypeRef doubled) := by
  induction type with
  | named name => cases found
  | list inner ih =>
      have below := ih found
      rw [typeDisplay, below]
      rfl
  | nonNull inner ih =>
      cases inner with
      | nonNull inner =>
          obtain ⟨⟩ := found
          rfl
      | named name => cases found
      | list inner =>
          have below := ih found
          rw [typeDisplay, below]
          · rfl
          · exact fun _ => TypeRef.noConfusion

section

variable {schema : Schema} {type : TypeRef} (style : String)

theorem typeLink_unknown (unknown : ¬ schema.HasType type.innermost) :
    typeLink schema style type = .error (.unknownType type.innermost) := by
  cases found : schema.type? type.innermost with
  | none => simp only [typeLink, found]
  | some definition => exact absurd (by simp [Schema.HasType, found]) unknown

theorem typeLink_doubled {doubled : TypeRef} (known : schema.HasType type.innermost)
    (found : type.layers.find? isDoubled = some doubled) :
    typeLink schema style type = .error (.unsupportedTypeRef doubled) := by
  obtain ⟨definition, declared⟩ := Option.isSome_iff_exists.mp known
  unfold typeLink
  simp only [declared, typeDisplay_doubled found]
  rfl

theorem exists_typeLink (known : schema.HasType type.innermost) (writable : type.IsWritable) :
    ∃ target title body, typeLink schema style type = .ok (.link style target title body) ∧
      body.Shows type.write := by
  obtain ⟨definition, declared⟩ := Option.isSome_iff_exists.mp known
  obtain ⟨body, printed⟩ := (succeeds_typeDisplay type).mpr writable
  unfold typeLink
  simp only [declared, printed]
  exact ⟨_, _, body, rfl, shows_typeDisplay printed⟩

/-- A link that fails with a doubled modifier is one to a reference that has one. -/
theorem typeLink_unsupported_iff (known : schema.HasType type.innermost) :
    (∃ doubled, typeLink schema style type = .error (.unsupportedTypeRef doubled)) ↔
      ∃ inner, .nonNull (.nonNull inner) ∈ type.layers := by
  constructor
  · rintro ⟨doubled, failed⟩
    by_contra none
    obtain ⟨_, _, _, linked, _⟩ := exists_typeLink style known (not_exists.mp none)
    cases failed.symm.trans linked
  · rintro ⟨inner, member⟩
    have found : (type.layers.find? isDoubled).isSome = true :=
      List.find?_isSome.mpr ⟨_, member, rfl⟩
    obtain ⟨doubled, found⟩ := Option.isSome_iff_exists.mp found
    exact ⟨doubled, typeLink_doubled style known found⟩

end

/-- The link to a type shows the reference as it is written, unless the name is unknown or, else, a
non-null modifier stands directly inside another one. The reference can be read again from what it
is written as, and so from what is shown. -/
theorem typeLink_shows (schema : Schema) (style : String) (type : TypeRef) :
    (¬ schema.HasType type.innermost →
      typeLink schema style type = .error (.unknownType type.innermost)) ∧
    (schema.HasType type.innermost →
      ((∃ doubled, typeLink schema style type = .error (.unsupportedTypeRef doubled)) ↔
        ∃ inner, .nonNull (.nonNull inner) ∈ type.layers) ∧
      (∀ doubled, type.layers.find? isDoubled = some doubled →
        typeLink schema style type = .error (.unsupportedTypeRef doubled)) ∧
      (type.IsWritable → ∃ target title body,
        typeLink schema style type = .ok (.link style target title body) ∧
          plainText body.write = type.write)) ∧
    (type.IsWritable → Sdl.IsName type.innermost →
      (∀ rest, Sdl.EndsType rest → Sdl.typeRef (type.write ++ rest) = some (type, rest)) ∧
      (∃ schema definition,
        Sdl.parse (String.ofList (Sdl.declaringArgument ("x:".toList ++ type.write))) =
            .ok schema ∧
          schema.directive? "a" = some definition ∧
            definition.arguments = [Sdl.typedArgument type]) ∧
      ∀ other : TypeRef, other.IsWritable → Sdl.IsName other.innermost →
        type.write = other.write → type = other) := by
  refine ⟨typeLink_unknown style, fun known => ⟨typeLink_unsupported_iff style known,
    fun doubled => typeLink_doubled style known, fun writable => ?_⟩, fun writable named => ?_⟩
  · obtain ⟨target, title, body, linked, shows⟩ := exists_typeLink style known writable
    exact ⟨target, title, body, linked, shows.plainText⟩
  · exact ⟨fun rest => Sdl.typeRef_write writable named, Sdl.parse_typed writable named,
      fun other => Sdl.write_inj writable named⟩

/-- Lists in lists are shown and read with all their brackets and marks. -/
theorem typeLink_shows_nested :
    (∃ target title body,
      typeLink querySchema "typename" (.nonNull (.list (.list (.nonNull (.named "Query"))))) =
          .ok (.link "typename" target title body) ∧
        plainText body.write = "[[Query!]]!".toList) ∧
      Sdl.typeRef "[[Query!]]!)".toList =
        some (.nonNull (.list (.list (.nonNull (.named "Query")))), [')']) := by
  have writable : (TypeRef.nonNull (.list (.list (.nonNull (.named "Query"))))).IsWritable := by
    simp [TypeRef.IsWritable, TypeRef.layers]
  have named : Sdl.IsName "Query" := by decide
  obtain ⟨_, linked, read⟩ := typeLink_shows querySchema "typename"
    (.nonNull (.list (.list (.nonNull (.named "Query")))))
  exact ⟨(linked rfl).2.2 writable,
    (read writable named).1 [')'] (Sdl.endsType_cons (by decide) (by decide) [])⟩

end GraphqlReference.Page
