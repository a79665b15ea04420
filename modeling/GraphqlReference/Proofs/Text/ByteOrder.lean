import Mathlib.Data.String.Basic
import Mathlib.Tactic.SplitIfs

namespace GraphqlReference.Text

/-- The bytes of a text in UTF-8. -/
def bytes (text : String) : List UInt8 :=
  text.toUTF8.data.toList

theorem bytes_eq_flatMap (text : String) :
    bytes text = text.toList.flatMap String.utf8EncodeChar := by
  unfold bytes
  rw [String.toUTF8, ← String.utf8Encode_toList, List.utf8Encode, List.toList_data_toByteArray]

/-- Of the first bytes in which two lists differ, that of the first list is the less. Neither list
ends before. -/
def Precedes : List UInt8 → List UInt8 → Prop
  | first :: rest, first' :: rest' => first < first' ∨ (first = first' ∧ Precedes rest rest')
  | _, _ => False

theorem Precedes.append_lt {first second : List UInt8} (precedes : Precedes first second)
    (rest rest' : List UInt8) : first ++ rest < second ++ rest' := by
  induction first generalizing second with
  | nil => cases precedes
  | cons byte more ih =>
      cases second with
      | nil => cases precedes
      | cons byte' more' =>
          rw [List.cons_append, List.cons_append, List.cons_lt_cons_iff]
          exact precedes.imp_right fun ⟨same, later⟩ => ⟨same, ih later⟩

/-- The greater of two numbers has the greater one of the first digits in which they differ, in base
64 and with four digits. -/
theorem digits_lt {number number' : Nat} (less : number < number') :
    number / 262144 < number' / 262144 ∨ (number / 262144 = number' / 262144 ∧
      (number / 4096 % 64 < number' / 4096 % 64 ∨
        (number / 4096 % 64 = number' / 4096 % 64 ∧ (number / 64 % 64 < number' / 64 % 64 ∨
          (number / 64 % 64 = number' / 64 % 64 ∧ number % 64 < number' % 64))))) := by
  have step {first second : Nat} (less : first < second) : first / 64 < second / 64 ∨
      (first / 64 = second / 64 ∧ first % 64 < second % 64) := by omega
  have twice (number : Nat) : number / 4096 = number / 64 / 64 :=
    (Nat.div_div_eq_div_mul number 64 64).symm
  have thrice (number : Nat) : number / 262144 = number / 64 / 64 / 64 := by
    rw [Nat.div_div_eq_div_mul, Nat.div_div_eq_div_mul]
  simp only [thrice, twice]
  rcases step less with high | ⟨same, low⟩
  · rcases step high with high | ⟨same, low⟩
    · exact (step high).imp_right fun ⟨same, low⟩ => ⟨same, .inl low⟩
    · rw [same]
      exact .inr ⟨rfl, .inr ⟨rfl, .inl low⟩⟩
  · rw [same]
    exact .inr ⟨rfl, .inr ⟨rfl, .inr ⟨rfl, low⟩⟩⟩

theorem ofNat_lt_ofNat {number number' : Nat} (less : number < number') (byte : number' < 256) :
    UInt8.ofNat number < UInt8.ofNat number' := by
  rw [UInt8.lt_iff_toNat_lt, UInt8.toNat_ofNat', UInt8.toNat_ofNat']
  omega

theorem precedes_utf8EncodeChar {c d : Char} (less : c < d) :
    Precedes (String.utf8EncodeChar c) (String.utf8EncodeChar d) := by
  have below : c.val.toNat < d.val.toNat := less
  have bound : d.val.toNat < 0x110000 := by
    have valid := d.valid
    unfold UInt32.isValidChar Nat.isValidChar at valid
    omega
  simp only [String.utf8EncodeChar.eq_1]
  generalize c.val.toNat = code at *
  generalize d.val.toNat = code' at *
  by_cases long : 65535 < code
  · have four (number : Nat) (large : 65535 < number) :
        ¬ number ≤ 127 ∧ ¬ number ≤ 2047 ∧ ¬ number ≤ 65535 := by omega
    simp only [four code long, four code' (Nat.lt_trans long below), if_false, Precedes]
    rcases digits_lt below with high | ⟨same, high | ⟨same', high | ⟨same'', high⟩⟩⟩
    · exact .inl (ofNat_lt_ofNat (by omega) (by omega))
    · rw [same]
      exact .inr ⟨rfl, .inl (ofNat_lt_ofNat (by omega) (by omega))⟩
    · rw [same, same']
      exact .inr ⟨rfl, .inr ⟨rfl, .inl (ofNat_lt_ofNat (by omega) (by omega))⟩⟩
    · rw [same, same', same'']
      exact .inr ⟨rfl, .inr ⟨rfl, .inr ⟨rfl, .inl (ofNat_lt_ofNat (by omega) (by omega))⟩⟩⟩
  · split_ifs <;>
      simp only [Precedes, UInt8.lt_iff_toNat_lt, ← UInt8.toNat_inj, UInt8.toNat_ofNat',
        and_false, or_false] <;>
      omega

theorem flatMap_utf8EncodeChar_lt {first second : List Char} (less : first < second) :
    first.flatMap String.utf8EncodeChar < second.flatMap String.utf8EncodeChar := by
  induction first generalizing second with
  | nil =>
      cases second with
      | nil => exact absurd less (List.lt_irrefl [])
      | cons c rest =>
          obtain ⟨byte, more, encoded⟩ :=
            List.exists_cons_of_ne_nil (String.utf8EncodeChar_ne_nil (c := c))
          rw [List.flatMap_nil, List.flatMap_cons, encoded]
          exact List.nil_lt_cons _ _
  | cons c rest ih =>
      cases second with
      | nil => exact absurd less (List.not_lt_nil _)
      | cons d rest' =>
          rw [List.flatMap_cons, List.flatMap_cons]
          rcases List.cons_lt_cons_iff.mp less with before | ⟨rfl, later⟩
          · exact (precedes_utf8EncodeChar before).append_lt _ _
          · exact List.append_left_lt (ih later)

/-- Texts compare by their characters as they do by their bytes. -/
theorem bytes_lt_iff {first second : String} : bytes first < bytes second ↔ first < second := by
  have kept {first second : String} (less : first < second) : bytes first < bytes second := by
    rw [bytes_eq_flatMap, bytes_eq_flatMap]
    exact flatMap_utf8EncodeChar_lt (String.lt_iff_toList_lt.mp less)
  refine ⟨fun less => ?_, kept⟩
  by_contra other
  rcases (String.not_lt.mp other).lt_or_eq with behind | same
  · exact List.lt_asymm less (kept behind)
  · exact List.lt_irrefl _ (same ▸ less)

end GraphqlReference.Text
