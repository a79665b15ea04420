import GraphqlReference.Proofs.Schema.Writable
import GraphqlReference.Proofs.Sdl.WrittenDefaults

namespace GraphqlReference.Sdl

open Text

/-- What follows a type reference and does not continue it. -/
structure EndsType (rest : List Char) : Prop where
  part : ∀ c ∈ rest.head?, isNamePart c = false
  mark : ∀ c ∈ rest.head?, c ≠ '!'

theorem endsType_cons {c : Char} (part : isNamePart c = false) (mark : c ≠ '!')
    (rest : List Char) : EndsType (c :: rest) := by
  constructor <;> simpa

/-- A reference with the exclamation mark that may follow it, if it has none yet. -/
def marked (type : TypeRef) (rest : List Char) : TypeRef × List Char :=
  match type with
  | .nonNull inner => (.nonNull inner, rest)
  | type => withNonNull type rest

section

variable {type : TypeRef} {rest : List Char}

theorem withNonNull_of_ne (ends : ∀ c ∈ rest.head?, c ≠ '!') :
    withNonNull type rest = (type, rest) := by
  unfold withNonNull
  split
  · exact absurd rfl (ends '!' rfl)
  · rfl

theorem marked_of_ne (ends : ∀ c ∈ rest.head?, c ≠ '!') : marked type rest = (type, rest) := by
  cases type with
  | nonNull => rfl
  | named | list => exact withNonNull_of_ne ends

/-- Induction on the reference. A mark is read together with the name or the bracket in front of it,
so nothing is told apart from a reference that has its mark. -/
theorem typeRefHere_write (writable : type.IsWritable) (named : IsName type.innermost)
    (ends : ∀ c ∈ rest.head?, isNamePart c = false) :
    typeRefHere (type.write ++ rest) = some (marked type rest) := by
  induction type generalizing rest with
  | named name =>
      have named : IsName name := named
      have read := nameHere_append named ends
      obtain ⟨c, part, split, start, _⟩ := named
      have bracket : c ≠ '[' := ne_of_isNameStart start (by decide)
      have written : (TypeRef.named name).write ++ rest = c :: (part ++ rest) := by
        rw [TypeRef.write, split, List.cons_append]
      rw [split, List.cons_append] at read
      rw [written, typeRefHere, read]
      · rfl
      · exact bracket
  | list inner ih =>
      have closing : ∀ c ∈ (']' :: rest).head?, c ≠ '!' := by simp
      have read := ih (TypeRef.isWritable_list.mp writable) named
        (show ∀ c ∈ (']' :: rest).head?, isNamePart c = false by simp; decide)
      rw [marked_of_ne closing] at read
      have split : (TypeRef.list inner).write ++ rest = '[' :: (inner.write ++ ']' :: rest) := by
        simp [TypeRef.write]
      rw [split, typeRefHere, read]
      rfl
  | nonNull inner ih =>
      have plain : ∀ deeper, inner ≠ .nonNull deeper := by
        rintro deeper rfl
        exact writable deeper List.mem_cons_self
      have read := ih ((TypeRef.isWritable_nonNull plain).mp writable) named
        (show ∀ c ∈ ('!' :: rest).head?, isNamePart c = false by simp; decide)
      have split : (TypeRef.nonNull inner).write ++ rest = inner.write ++ '!' :: rest := by
        simp [TypeRef.write]
      rw [split, read]
      cases inner with
      | nonNull deeper => exact absurd rfl (plain deeper)
      | named | list => rfl

theorem skip_write (named : IsName type.innermost) (rest : List Char) :
    skip (type.write ++ rest) = type.write ++ rest := by
  induction type generalizing rest with
  | named name => exact skip_name named rest
  | list inner => rfl
  | nonNull inner ih =>
      rw [TypeRef.write, List.append_assoc]
      exact ih named _

theorem typeRef_write (writable : type.IsWritable) (named : IsName type.innermost)
    (ends : EndsType rest) : typeRef (type.write ++ rest) = some (type, rest) := by
  rw [typeRef, skip_write named, typeRefHere_write writable named ends.part,
    marked_of_ne ends.mark]

/-- No two references are written alike. -/
theorem write_inj {other : TypeRef} (writable : type.IsWritable) (named : IsName type.innermost)
    (writable' : other.IsWritable) (named' : IsName other.innermost)
    (same : type.write = other.write) : type = other := by
  have ends : EndsType [] := by constructor <;> simp
  have read := typeRef_write writable named ends
  rw [same, typeRef_write writable' named' ends] at read
  exact (congrArg Prod.fst (Option.some.inj read)).symm

end

section

variable {type : TypeRef}

def typedArgument (type : TypeRef) : Argument :=
  ⟨"x", none, type, none, []⟩

theorem argument_typed
    (read : typeRef (type.write ++ behindDefault) = some (type, behindDefault)) :
    argument (("x:".toList ++ type.write) ++ behindDefault) =
      some (typedArgument type, behindDefault) := by
  have description : optional string (("x:".toList ++ type.write) ++ behindDefault) =
      (none, ("x:".toList ++ type.write) ++ behindDefault) := rfl
  have name : name (("x:".toList ++ type.write) ++ behindDefault) =
      some ("x", ':' :: (type.write ++ behindDefault)) := rfl
  have colon : keyword ":" (':' :: (type.write ++ behindDefault)) =
      some ((), type.write ++ behindDefault) := rfl
  have default : optional defaultValue behindDefault = (none, behindDefault) := rfl
  have usages : many usage behindDefault = ([], behindDefault) := rfl
  simp only [argument, description, name, colon, read, default, usages, Option.bind_eq_bind,
    Option.bind_some, typedArgument]

theorem parse_typed (writable : type.IsWritable) (named : IsName type.innermost) :
    ∃ schema definition,
      parse (String.ofList (declaringArgument ("x:".toList ++ type.write))) = .ok schema ∧
        schema.directive? "a" = some definition ∧ definition.arguments = [typedArgument type] := by
  have ends : EndsType behindDefault := endsType_cons (by decide) (by decide) _
  exact parse_declaringArgument (argument_typed (typeRef_write writable named ends)) rfl

end

end GraphqlReference.Sdl
