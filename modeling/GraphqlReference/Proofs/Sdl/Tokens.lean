import GraphqlReference.Proofs.Sdl.Integers
import GraphqlReference.Proofs.Sdl.RootNames
import GraphqlReference.Proofs.Text.Occurrence
import GraphqlReference.Sdl.ConstValue
import GraphqlReference.Value.Literal

namespace GraphqlReference.Sdl

open Text

/-- What follows a token and does not continue it. -/
structure EndsToken (rest : List Char) : Prop where
  part : ∀ c ∈ rest.head?, isNamePart c = false
  point : ∀ c ∈ rest.head?, c ≠ '.'
  quote : ∀ c ∈ rest.head?, c ≠ '"'

theorem endsToken_cons {c : Char} (part : isNamePart c = false) (point : c ≠ '.') (quote : c ≠ '"')
    (rest : List Char) : EndsToken (c :: rest) := by
  constructor <;> simpa

section

variable {rest : List Char}

/-- A letter or an underscore with letters, digits and underscores behind it. -/
def IsName (name : String) : Prop :=
  ∃ c part, name.toList = c :: part ∧ isNameStart c = true ∧ ∀ d ∈ part, isNamePart d = true

theorem isName_iff {name : String} : IsName name ↔
    (name.toList.head?.any isNameStart && name.toList.tail.all isNamePart) = true := by
  rw [IsName, Bool.and_eq_true, List.all_eq_true]
  cases name.toList with
  | nil => simp
  | cons c part => simp

instance (name : String) : Decidable (IsName name) :=
  decidable_of_iff _ isName_iff.symm

theorem ne_of_isNameStart {c other : Char} (start : isNameStart c = true)
    (different : isNameStart other = false) : c ≠ other := by
  rintro rfl
  exact Bool.noConfusion (start.symm.trans different)

theorem isDigit_of_isNameStart {c : Char} (start : isNameStart c = true) : c.isDigit = false := by
  have range := toNat_isNameStart start
  refine Bool.eq_false_iff.mpr fun digit => ?_
  simp only [Char.isDigit, Bool.and_eq_true, decide_eq_true_eq] at digit
  have low : 48 ≤ c.toNat := digit.1
  have high : c.toNat ≤ 57 := digit.2
  omega

theorem skip_namePart {c : Char} (part : isNamePart c = true) (behind : List Char) :
    skip (c :: behind) = c :: behind := by
  have kept : isIgnored c = false := by
    refine Bool.eq_false_iff.mpr fun ignored => ?_
    simp only [isIgnored, isLineEnd, Bool.or_eq_true, beq_iff_eq] at ignored
    rcases ignored with (((rfl | rfl) | rfl) | rfl) | rfl | rfl <;> exact absurd part (by decide)
  have sign : c ≠ '#' := by
    rintro rfl
    exact absurd part (by decide)
  simp [skip, skipFrom, kept, sign]

theorem skip_name {name : String} (named : IsName name) (behind : List Char) :
    skip (name.toList ++ behind) = name.toList ++ behind := by
  obtain ⟨c, part, split, start, _⟩ := named
  rw [split]
  exact skip_namePart (isNamePart_of_isNameStart start) _

theorem nameHere_append {name : String} (named : IsName name)
    (ends : ∀ c ∈ rest.head?, isNamePart c = false) :
    nameHere (name.toList ++ rest) = some (name, rest) := by
  obtain ⟨c, part, split, start, parts⟩ := named
  rw [split, List.cons_append, nameHere, if_pos start, takeWhile_run parts ends,
    dropWhile_run parts ends, ← split, String.ofList_toList]

theorem name_append {name : String} (named : IsName name)
    (ends : ∀ c ∈ rest.head?, isNamePart c = false) :
    Sdl.name (name.toList ++ rest) = some (name, rest) := by
  rw [Sdl.name, skip_name named, nameHere_append named ends]

theorem EndsToken.digit (ends : EndsToken rest) : ∀ c ∈ rest.head?, c.isDigit = false := by
  intro c first
  refine Bool.eq_false_iff.mpr fun digit => ?_
  have part := ends.part c first
  simp [isNamePart, Char.isAlphanum, digit] at part

theorem EndsToken.startsName (ends : EndsToken rest) : startsName rest = false := by
  cases rest with
  | nil => rfl
  | cons c behind =>
      refine Bool.eq_false_iff.mpr fun start => ?_
      exact Bool.noConfusion ((isNamePart_of_isNameStart start).symm.trans (ends.part c rfl))

theorem EndsToken.endsInteger (ends : EndsToken rest) (digits : List Char) :
    EndsInteger digits rest where
  digit := .inr ends.digit
  fraction := by
    unfold fractionHere
    split
    · exact absurd rfl (ends.point '.' rfl)
    · rfl
  name := ends.startsName

theorem writeInt_eq (value : Int) : Value.writeInt value = (IntegerLiteral.ofInt value).text := by
  by_cases negative : value < 0 <;>
    simp [Value.writeInt, IntegerLiteral.text, IntegerLiteral.ofInt, sign, negative]

theorem skip_integer (literal : IntegerLiteral) (rest : List Char) :
    skip (literal.text ++ rest) = literal.text ++ rest := by
  obtain ⟨c, more, split, digit⟩ := literal.whole.exists_cons
  rw [IntegerLiteral.text, split]
  cases literal.negative with
  | true => rfl
  | false => exact skip_namePart (by simp [isNamePart, Char.isAlphanum, digit]) _

theorem number_writeInt (value : Int64) (ends : EndsToken rest) :
    number (Value.writeInt value.toInt ++ rest) = some (.int value, rest) := by
  have stands : (IntegerLiteral.ofInt value.toInt).StandsAt _ rest :=
    ⟨skip_integer _ rest, ends.endsInteger _⟩
  rw [writeInt_eq, stands.number, IntegerLiteral.value_number (IntegerLiteral.isExact_ofInt value),
    IntegerLiteral.value_ofInt, Int64.ofInt_toInt]

theorem ofHexDigits_hexadecimal {c : Char} (control : isControl c = true) :
    ∃ first second third last, Value.hexadecimal c.toNat = [first, second, third, last] ∧
      ofHexDigits? [first, second, third, last] = some c := by
  have table : ∀ code < 160, (Value.hexadecimal code).length = 4 ∧
      ofHexDigits? (Value.hexadecimal code) = some (Char.ofNat code) := by decide +kernel
  have small : c.toNat < 160 := by
    simp only [isControl, Bool.or_eq_true, Bool.and_eq_true, decide_eq_true_eq] at control
    omega
  obtain ⟨four, read⟩ := table c.toNat small
  obtain ⟨first, second, third, last, digits⟩ := List.length_eq_four.mp four
  rw [Char.ofNat_toNat, digits] at read
  exact ⟨first, second, third, last, digits, read⟩

/-- What a character is written as between quotation marks, case by case. -/
theorem quoteChar_cases (c : Char) :
    (∃ mark, mark ≠ 'u' ∧ simpleEscape? mark = some c ∧ Value.quoteChar c = ['\\', mark]) ∨
      (isControl c = true ∧ Value.quoteChar c = '\\' :: 'u' :: Value.hexadecimal c.toNat) ∨
      (c ≠ '"' ∧ c ≠ '\\' ∧ isLineEnd c = false ∧ Value.quoteChar c = [c]) := by
  by_cases quote : c = '"'
  · exact .inl ⟨'"', by decide, by rw [quote]; rfl, by rw [quote]; rfl⟩
  by_cases backslash : c = '\\'
  · exact .inl ⟨'\\', by decide, by rw [backslash]; rfl, by rw [backslash]; rfl⟩
  by_cases feed : c = '\n'
  · exact .inl ⟨'n', by decide, by rw [feed]; rfl, by rw [feed]; rfl⟩
  by_cases carriage : c = '\r'
  · exact .inl ⟨'r', by decide, by rw [carriage]; rfl, by rw [carriage]; rfl⟩
  by_cases tab : c = '\t'
  · exact .inl ⟨'t', by decide, by rw [tab]; rfl, by rw [tab]; rfl⟩
  by_cases control : isControl c = true
  · exact .inr (.inl ⟨control, by simp [Value.quoteChar, *]⟩)
  · exact .inr (.inr ⟨quote, backslash, by simp [isLineEnd, feed, carriage],
      by simp [Value.quoteChar, *]⟩)

theorem quotedRest_simple {mark c : Char} (other : mark ≠ 'u')
    (stands : simpleEscape? mark = some c) (text : List Char) : quotedRest ('\\' :: mark :: text) =
      (quotedRest text).map fun (more, rest) => (c :: more, rest) := by
  rw [quotedRest, stands, Option.map_eq_bind]
  · rfl
  · exact fun _ _ _ _ _ same => absurd same other

theorem quotedRest_plain {c : Char} (quote : c ≠ '"') (backslash : c ≠ '\\')
    (lineEnd : isLineEnd c = false) (text : List Char) :
    quotedRest (c :: text) = (quotedRest text).map fun (more, rest) => (c :: more, rest) := by
  rw [quotedRest]
  · simp [backslash, lineEnd]
  all_goals
    intros
    contradiction

theorem quotedRest_quoteChar (c : Char) (text : List Char) :
    quotedRest (Value.quoteChar c ++ text) =
      (quotedRest text).map fun (more, rest) => (c :: more, rest) := by
  rcases quoteChar_cases c with ⟨mark, other, stands, same⟩ | ⟨control, same⟩ |
    ⟨quote, backslash, lineEnd, same⟩
  · rw [same]
    exact quotedRest_simple other stands text
  · obtain ⟨first, second, third, last, digits, read⟩ := ofHexDigits_hexadecimal control
    rw [same, digits, Option.map_eq_bind]
    simp only [List.cons_append, quotedRest, List.nil_append, read]
    rfl
  · rw [same]
    exact quotedRest_plain quote backslash lineEnd text

theorem quotedRest_quote (text rest : List Char) :
    quotedRest (text.flatMap Value.quoteChar ++ '"' :: rest) = some (text, rest) := by
  induction text with
  | nil => rfl
  | cons c text ih =>
      rw [List.flatMap_cons, List.append_assoc, quotedRest_quoteChar, ih]
      rfl

/-- A quoted string does not begin like a block string. -/
theorem quote_ne_block (ends : EndsToken rest) (text behind : List Char) :
    text.flatMap Value.quoteChar ++ '"' :: rest ≠ '"' :: '"' :: behind := by
  intro same
  cases text with
  | nil => exact ends.quote '"' (by rw [(List.cons.inj same).2]; rfl) rfl
  | cons c text =>
      rw [List.flatMap_cons] at same
      rcases quoteChar_cases c with ⟨_, _, _, written⟩ | ⟨_, written⟩ | ⟨quote, _, _, written⟩
      · rw [written] at same
        exact absurd (List.cons.inj same).1 (by decide)
      · rw [written] at same
        exact absurd (List.cons.inj same).1 (by decide)
      · rw [written] at same
        exact quote (List.cons.inj same).1

theorem string_quote (text : String) (ends : EndsToken rest) :
    string (Value.quote text.toList ++ rest) = some (text, rest) := by
  have split : Value.quote text.toList ++ rest =
      '"' :: (text.toList.flatMap Value.quoteChar ++ '"' :: rest) := by
    simp [Value.quote]
  have token : ∀ behind, skip ('"' :: behind) = '"' :: behind := fun _ => rfl
  rw [string, split, token, stringHere, quotedRest_quote]
  · simp
  · exact quote_ne_block ends text.toList

end

end GraphqlReference.Sdl
