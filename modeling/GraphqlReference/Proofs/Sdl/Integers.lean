import Mathlib.Data.List.Induction
import GraphqlReference.Proofs.Text.Occurrence
import GraphqlReference.Sdl.Number
import GraphqlReference.Value.Literal

namespace GraphqlReference.Sdl

open Text

/-- Digits without a superfluous zero in front. -/
def IsWhole (digits : List Char) : Prop :=
  digits = ['0'] ∨ digits ≠ [] ∧ digits.head? ≠ some '0' ∧ ∀ c ∈ digits, c.isDigit = true

instance (digits : List Char) : Decidable (IsWhole digits) :=
  have : Decidable (∀ c ∈ digits, c.isDigit = true) := List.decidableBAll _ _
  inferInstanceAs (Decidable (_ ∨ _))

theorem toNat_isDigit {c : Char} (digit : c.isDigit = true) : 48 ≤ c.toNat ∧ c.toNat ≤ 57 := by
  simp only [Char.isDigit, Bool.and_eq_true, decide_eq_true_eq] at digit
  exact ⟨digit.1, digit.2⟩

theorem digitChar_isDigit {c : Char} (digit : c.isDigit = true) :
    (c.toNat - '0'.toNat).digitChar = c := by
  have table : ∀ code < 58, 48 ≤ code → (code - '0'.toNat).digitChar = Char.ofNat code := by decide
  have range := toNat_isDigit digit
  rw [table c.toNat (by omega) range.1, Char.ofNat_toNat]

theorem isDigit_toDigits {number : Nat} : ∀ c ∈ Nat.toDigits 10 number, c.isDigit = true :=
  fun _ => Nat.isDigit_of_mem_toDigits (by decide) (by decide)

theorem exists_first_digit {number : Nat} (positive : 0 < number) :
    ∃ c digits, Nat.toDigits 10 number = c :: digits ∧ c ≠ '0' := by
  induction number using Nat.strongRecOn with
  | ind number ih =>
      by_cases single : number < 10
      · have digit : ∀ small < 10, 0 < small → Nat.digitChar small ≠ '0' := by decide
        exact ⟨number.digitChar, [], Nat.toDigits_of_lt_base single, digit number single positive⟩
      · obtain ⟨c, digits, split, other⟩ := ih (number / 10) (by omega) (by omega)
        refine ⟨c, digits ++ [(number % 10).digitChar], ?_, other⟩
        rw [Nat.toDigits_eq_if (by decide), if_neg single, split, List.cons_append]

theorem isWhole_toDigits (number : Nat) : IsWhole (Nat.toDigits 10 number) := by
  rcases Nat.eq_zero_or_pos number with rfl | positive
  · exact .inl rfl
  · obtain ⟨c, digits, split, other⟩ := exists_first_digit positive
    exact .inr ⟨by simp [split], by simpa [split] using other, isDigit_toDigits⟩

theorem le_ofDigitChars (digits : List Char) (start : Nat) :
    start ≤ Nat.ofDigitChars 10 digits start := by
  induction digits generalizing start with
  | nil => exact Nat.le.refl
  | cons digit digits ih =>
      rw [Nat.ofDigitChars_cons]
      exact Nat.le_trans (by omega) (ih _)

theorem IsWhole.exists_cons {digits : List Char} (whole : IsWhole digits) :
    ∃ c more, digits = c :: more ∧ c.isDigit = true := by
  rcases whole with rfl | ⟨some, _, all⟩
  · exact ⟨'0', [], rfl, rfl⟩
  · obtain ⟨c, more, rfl⟩ := List.exists_cons_of_ne_nil some
    exact ⟨c, more, rfl, all c List.mem_cons_self⟩

/-- A number has no other decimal form than its own digits. -/
theorem toDigits_ofDigitChars {digits : List Char} (whole : IsWhole digits) :
    Nat.toDigits 10 (Nat.ofDigitChars 10 digits 0) = digits := by
  rcases whole with rfl | ⟨some, first, all⟩
  · rfl
  · induction digits using List.reverseRecOn with
    | nil => exact absurd rfl some
    | append_singleton front last ih =>
        obtain ⟨allFront, digit⟩ := List.forall_mem_append.mp all
        have digit := List.forall_mem_singleton.mp digit
        have range := toNat_isDigit digit
        have small : last.toNat - '0'.toNat < 10 := by
          have zero : '0'.toNat = 48 := rfl
          omega
        rw [Nat.ofDigitChars_append, Nat.ofDigitChars_cons, Nat.ofDigitChars_nil]
        cases front with
        | nil =>
            rw [Nat.ofDigitChars_nil, Nat.mul_zero, Nat.zero_add, Nat.toDigits_of_lt_base small,
              digitChar_isDigit digit, List.nil_append]
        | cons c front =>
            have other : c ≠ '0' := by simpa using first
            have nonzero := toNat_isDigit (allFront c List.mem_cons_self)
            have positive : 0 < Nat.ofDigitChars 10 (c :: front) 0 := by
              rw [Nat.ofDigitChars_cons]
              refine Nat.lt_of_lt_of_le ?_ (le_ofDigitChars front _)
              have zero : '0'.toNat = 48 := rfl
              have apart : c.toNat ≠ 48 := fun same => other (Char.toNat_inj.mp same)
              omega
            have same := ih (by simp) (by simpa using other) allFront
            rw [← Nat.toDigits_append_toDigits (by decide) positive small, same,
              Nat.toDigits_of_lt_base small, digitChar_isDigit digit]

section

variable {text digits rest : List Char} {negative : Bool}

theorem wholeDigits_eq_some : wholeDigits text = some (digits, rest) ↔
    IsWhole digits ∧ text = digits ++ rest ∧
      (digits = ['0'] ∨ ∀ c ∈ rest.head?, c.isDigit = false) := by
  constructor
  · intro read
    unfold wholeDigits at read
    split at read
    · obtain ⟨⟩ := read
      exact ⟨.inl rfl, rfl, .inl rfl⟩
    · rename_i c behind zero
      split at read
      · rename_i digit
        obtain ⟨⟩ := read
        have other : c ≠ '0' := fun same => zero same
        have ends := List.head?_dropWhile_not Char.isDigit behind
        refine ⟨.inr ⟨by simp, by simpa using other, ?_⟩, ?_, .inr fun d first => ?_⟩
        · exact List.forall_mem_cons.mpr ⟨digit, List.all_eq_true.mp List.all_takeWhile⟩
        · rw [List.cons_append, List.takeWhile_append_dropWhile]
        · rw [Option.mem_def.mp first] at ends
          exact ends
      · cases read
    · cases read
  · rintro ⟨rfl | ⟨some, first, all⟩, rfl, ends⟩
    · rfl
    · obtain ⟨c, more, rfl⟩ := List.exists_cons_of_ne_nil some
      have other : c ≠ '0' := by simpa using first
      obtain ⟨digit, all⟩ := List.forall_mem_cons.mp all
      have ends := ends.resolve_left fun same => other (List.cons.inj same).1
      rw [List.cons_append, wholeDigits, if_pos digit, takeWhile_run all ends,
        dropWhile_run all ends]
      exact other

/-- What follows the digits of an integer literal: neither another digit nor a fraction nor a
name. -/
structure EndsInteger (digits rest : List Char) : Prop where
  digit : digits = ['0'] ∨ ∀ c ∈ rest.head?, c.isDigit = false
  fraction : fractionHere rest = none
  name : startsName rest = false

theorem exponentHere_of_startsName (name : startsName rest = false) : exponentHere rest = none := by
  unfold exponentHere
  split
  · rfl
  · rename_i mark behind
    refine if_neg fun exponent => ?_
    have start : isNameStart mark = false := name
    rcases exponent with rfl | rfl <;> exact absurd start (by decide)

theorem optional_of_none {α : Type} {reader : Reader α} (nothing : reader text = none) :
    optional reader text = (none, text) := by
  rw [Text.optional, nothing]

theorem of_optional_eq_none {α : Type} {reader : Reader α}
    (found : (optional reader text).1 = none) : reader text = none := by
  unfold Text.optional at found
  split at found
  · cases found
  · assumption

def sign (negative : Bool) : List Char :=
  if negative then ['-'] else []

theorem ne_minus_of_isWhole (whole : IsWhole digits) (behind : List Char) :
    digits ++ rest ≠ '-' :: behind := by
  intro same
  obtain ⟨c, more, rfl, digit⟩ := whole.exists_cons
  rw [(List.cons.inj same).1] at digit
  exact absurd digit (by decide)

theorem numberHere_integer : numberHere text = some (⟨negative, digits, none, none⟩, rest) ↔
    IsWhole digits ∧ text = sign negative ++ (digits ++ rest) ∧ EndsInteger digits rest := by
  constructor
  · intro read
    obtain ⟨⟨whole, behind⟩, readWhole, read⟩ := Option.bind_eq_some_iff.mp read
    dsimp only at read
    split at read
    · cases read
    · rename_i name
      simp only [Option.some.injEq, Prod.mk.injEq, NumberLiteral.mk.injEq] at read
      obtain ⟨⟨signed, rfl, fraction, exponent⟩, behindExponent⟩ := read
      have noFraction := of_optional_eq_none fraction
      simp only [optional_of_none noFraction] at name exponent behindExponent
      rw [optional_of_none (of_optional_eq_none exponent)] at name behindExponent
      obtain rfl : behind = rest := behindExponent
      obtain ⟨isWhole, split, digit⟩ := wholeDigits_eq_some.mp readWhole
      refine ⟨isWhole, ?_, digit, noFraction, Bool.eq_false_iff.mpr name⟩
      rw [← split, ← signed]
      split <;> rfl
  · rintro ⟨whole, rfl, ends⟩
    have read := wholeDigits_eq_some.mpr ⟨whole, rfl, ends.digit⟩
    have fraction := optional_of_none ends.fraction
    have exponent := optional_of_none (exponentHere_of_startsName ends.name)
    cases negative with
    | true => simp [sign, numberHere, read, fraction, exponent, ends.name]
    | false =>
        unfold numberHere
        split
        rename_i negative behind split
        split at split
        · rename_i same
          exact absurd same (ne_minus_of_isWhole whole _)
        · obtain ⟨⟩ := split
          simp [sign, read, fraction, exponent, ends.name]

end

theorem gather_ofDigitChars {digits : List Char} {start : Nat}
    (small : Nat.ofDigitChars 10 digits start < NumberLiteral.significandLimit) :
    NumberLiteral.gather start digits = (Nat.ofDigitChars 10 digits start, []) := by
  induction digits generalizing start with
  | nil => rfl
  | cons digit digits ih =>
      rw [Nat.ofDigitChars_cons] at small ⊢
      have longer : start * 10 + (digit.toNat - '0'.toNat) < NumberLiteral.significandLimit := by
        have grows := le_ofDigitChars digits (10 * start + (digit.toNat - '0'.toNat))
        omega
      rw [NumberLiteral.gather, if_pos longer, Nat.mul_comm start, ih small]

/-- Digits that leave nothing over are all in the significand. -/
theorem ofDigitChars_of_gather {digits : List Char} {start significand : Nat}
    (gathered : NumberLiteral.gather start digits = (significand, [])) :
    significand = Nat.ofDigitChars 10 digits start := by
  induction digits generalizing start with
  | nil =>
      obtain ⟨⟩ := gathered
      rfl
  | cons digit digits ih =>
      unfold NumberLiteral.gather at gathered
      dsimp only at gathered
      split at gathered
      · rw [Nat.ofDigitChars_cons, Nat.mul_comm 10, ih gathered]
      · cases gathered

theorem NumberLiteral.value_int_or_float (number : NumberLiteral) :
    (∃ integer, number.value = .int integer) ∨ ∃ float, number.value = .float float := by
  unfold NumberLiteral.value
  dsimp only
  split
  · split
    · exact .inl ⟨_, rfl⟩
    · split
      · exact .inl ⟨_, rfl⟩
      · exact .inr ⟨_, rfl⟩
  · exact .inr ⟨_, rfl⟩

structure IntegerLiteral where
  negative : Bool
  digits : List Char
  whole : IsWhole digits

namespace IntegerLiteral

variable (literal : IntegerLiteral)

def text : List Char :=
  sign literal.negative ++ literal.digits

def magnitude : Nat :=
  Nat.ofDigitChars 10 literal.digits 0

/-- The integer that a literal denotes. -/
def value : Int :=
  if literal.negative then -literal.magnitude else literal.magnitude

/-- The literal denotes an integer of 64 bits, and is not a zero with a minus. -/
structure IsExact : Prop where
  low : -9223372036854775808 ≤ literal.value
  high : literal.value ≤ 9223372036854775807
  sign : literal.text ≠ ['-', '0']

/-- The next token of a text is the literal; this is left behind it. -/
structure StandsAt (text rest : List Char) : Prop where
  here : skip text = literal.text ++ rest
  ends : EndsInteger literal.digits rest

def number : NumberLiteral :=
  ⟨literal.negative, literal.digits, none, none⟩

variable {literal}

theorem text_ne_nil : literal.text ≠ [] := by
  obtain ⟨c, more, split, _⟩ := literal.whole.exists_cons
  simp [text, split]

theorem toDigits_magnitude : Nat.toDigits 10 literal.magnitude = literal.digits :=
  toDigits_ofDigitChars literal.whole

theorem text_eq_negativeZero_iff :
    literal.text = ['-', '0'] ↔ literal.negative = true ∧ literal.magnitude = 0 := by
  constructor
  · intro same
    cases minus : literal.negative with
    | true =>
        have digits : literal.digits = ['0'] := by simpa [text, minus, sign] using same
        exact ⟨rfl, by rw [magnitude, digits]; rfl⟩
    | false =>
        have unsigned : literal.digits ++ [] ≠ ['-', '0'] := ne_minus_of_isWhole literal.whole _
        exact absurd (by simpa [text, minus, sign] using same) unsigned
  · intro ⟨minus, zero⟩
    rw [text, minus, ← toDigits_magnitude, zero]
    rfl

/-- The bound is one lower without a minus. -/
theorem isExact_iff : literal.IsExact ↔
    if literal.negative then 0 < literal.magnitude ∧ literal.magnitude ≤ 9223372036854775808
    else literal.magnitude < 9223372036854775808 := by
  have bounds : literal.IsExact ↔
      (-9223372036854775808 ≤ literal.value ∧ literal.value ≤ 9223372036854775807) ∧
        literal.text ≠ ['-', '0'] :=
    ⟨fun ⟨low, high, sign⟩ => ⟨⟨low, high⟩, sign⟩, fun ⟨⟨low, high⟩, sign⟩ => ⟨low, high, sign⟩⟩
  rw [bounds, Ne, text_eq_negativeZero_iff]
  cases minus : literal.negative with
  | true =>
      simp only [value, minus, if_true, true_and]
      omega
  | false =>
      simp only [value, minus, Bool.false_eq_true, if_false, false_and, not_false_eq_true, and_true]
      omega

theorem value_number (exact : literal.IsExact) :
    literal.number.value = .int (Int64.ofInt literal.value) := by
  have bounds := isExact_iff.mp exact
  have gathered : NumberLiteral.gather 0 literal.digits = (literal.magnitude, []) := by
    refine gather_ofDigitChars ?_
    change literal.magnitude < 18446744073709551616
    split at bounds <;> omega
  unfold NumberLiteral.value
  simp only [number, gathered, NumberLiteral.integerLimit, value]
  cases minus : literal.negative with
  | true =>
      rw [if_pos (by simpa [minus] using bounds)]
      rfl
  | false =>
      have below : literal.magnitude < 9223372036854775808 := by simpa [minus] using bounds
      simp [below]

theorem value_number_of_not_exact (inexact : ¬ literal.IsExact) :
    ∃ number, literal.number.value = .float number := by
  unfold NumberLiteral.value
  cases gathered : NumberLiteral.gather 0 literal.digits with
  | mk significand dropped =>
      cases dropped with
      | cons => exact ⟨_, by simp only [number, gathered]; rfl⟩
      | nil =>
          obtain rfl : significand = literal.magnitude := ofDigitChars_of_gather gathered
          rw [isExact_iff] at inexact
          simp only [number, gathered, NumberLiteral.integerLimit]
          cases minus : literal.negative with
          | true =>
              have outside :
                  ¬ (0 < literal.magnitude ∧ literal.magnitude ≤ 9223372036854775808) := by
                simpa [minus] using inexact
              simp [outside]
          | false =>
              have outside : ¬ literal.magnitude < 9223372036854775808 := by
                simpa [minus] using inexact
              simp [outside]

theorem toInt_value (exact : literal.IsExact) :
    (Int64.ofInt literal.value).toInt = literal.value := by
  have low := exact.low
  have high := exact.high
  exact Int64.toInt_ofInt_of_le (by omega) (by omega)

/-- An integer is written as the literal that it has been read from. -/
theorem write_value (exact : literal.IsExact) :
    (Value.int (Int64.ofInt literal.value)).write = literal.text := by
  have bounds := isExact_iff.mp exact
  rw [Value.write, toInt_value exact, Value.writeInt, text, ← toDigits_magnitude]
  cases minus : literal.negative with
  | true =>
      have positive : 0 < literal.magnitude := by
        rw [minus, if_pos rfl] at bounds
        exact bounds.1
      simp [value, minus, sign, positive]
  | false => simp [value, minus, sign]

theorem StandsAt.number {text rest : List Char} (stands : literal.StandsAt text rest) :
    Sdl.number text = some (literal.number.value, rest) := by
  have split : skip text = sign literal.negative ++ (literal.digits ++ rest) := by
    rw [stands.here, IntegerLiteral.text, List.append_assoc]
  rw [Sdl.number, numberHere_integer.mpr ⟨literal.whole, split, stands.ends⟩]
  rfl

def ofInt (value : Int) : IntegerLiteral where
  negative := decide (value < 0)
  digits := Nat.toDigits 10 value.natAbs
  whole := isWhole_toDigits value.natAbs

theorem magnitude_ofInt (value : Int) : (ofInt value).magnitude = value.natAbs :=
  Nat.ofDigitChars_ten_toDigits

theorem value_ofInt (value : Int) : (ofInt value).value = value := by
  rw [IntegerLiteral.value, magnitude_ofInt]
  by_cases negative : value < 0
  · simp only [ofInt, negative, decide_true, if_true]
    omega
  · simp only [ofInt, negative, decide_false, Bool.false_eq_true, if_false]
    omega

theorem isExact_ofInt (value : Int64) : (ofInt value.toInt).IsExact := by
  have low := value.le_toInt
  have high := value.toInt_lt
  rw [isExact_iff, magnitude_ofInt]
  by_cases negative : value.toInt < 0
  · simp only [ofInt, negative, decide_true, if_true]
    omega
  · simp only [ofInt, negative, decide_false, Bool.false_eq_true, if_false]
    omega

end IntegerLiteral

end GraphqlReference.Sdl
