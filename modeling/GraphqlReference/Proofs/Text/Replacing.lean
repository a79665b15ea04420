import Mathlib.Data.List.Infix

namespace GraphqlReference.Text

variable {α : Type}

/-- The words that a pattern finds, each with what stands for it afterwards. -/
abbrev Pattern (α : Type) := List α → List α → Prop

/-- The first word that is found is replaced, and the search goes on behind it. Neither what has
been replaced nor what replaces it is searched again. -/
inductive Replaced (finds : Pattern α) : List α → List α → Prop
  | nil : Replaced finds [] []
  | replaced {word other rest result : List α} : finds word other → Replaced finds rest result →
      Replaced finds (word ++ rest) (other ++ result)
  | kept {c : α} {rest result : List α} :
      (∀ word other, finds word other → ¬ word <+: c :: rest) → Replaced finds rest result →
      Replaced finds (c :: rest) (c :: result)

/-- No word that is found is empty, and at no place there is more than one of them. -/
structure Pattern.IsDefinite (finds : Pattern α) : Prop where
  nonempty : ∀ {word other}, finds word other → word ≠ []
  unique : ∀ {word other word' other' rest rest'}, finds word other → finds word' other' →
    word ++ rest = word' ++ rest' → word = word' ∧ other = other'

variable {finds : Pattern α} {text result result' : List α}

theorem Replaced.unique (definite : Pattern.IsDefinite finds)
    (replaced : Replaced finds text result) (replaced' : Replaced finds text result') :
    result = result' := by
  induction replaced generalizing result' with
  | nil =>
      generalize same : [] = text at replaced'
      cases replaced' with
      | nil => rfl
      | replaced found _ =>
          exact absurd (List.append_eq_nil_iff.mp same.symm).1 (definite.nonempty found)
      | kept => cases same
  | @replaced word other rest result found _ ih =>
      generalize same : word ++ rest = text at replaced'
      cases replaced' with
      | nil => exact absurd (List.append_eq_nil_iff.mp same).1 (definite.nonempty found)
      | replaced found' behind' =>
          obtain ⟨rfl, rfl⟩ := definite.unique found found' same
          rw [ih (List.append_cancel_left same ▸ behind')]
      | kept nothing _ => exact absurd ⟨rest, same⟩ (nothing _ _ found)
  | @kept c rest result nothing _ ih =>
      generalize same : c :: rest = text at replaced'
      cases replaced' with
      | nil => cases same
      | replaced found' _ => exact absurd ⟨_, same.symm⟩ (nothing _ _ found')
      | kept _ behind' =>
          obtain ⟨rfl, rfl⟩ := List.cons.inj same
          rw [ih behind']

end GraphqlReference.Text
