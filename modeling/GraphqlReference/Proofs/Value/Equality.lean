import GraphqlReference.Proofs.Schema.Lookup
import GraphqlReference.Proofs.Schema.References

namespace GraphqlReference.Value

mutual

/-- Every object in a value has each of its names once. -/
def HasDistinctNames : Value → Prop
  | .list items => ItemsHaveDistinctNames items
  | .object fields => (fields.map Prod.fst).Nodup ∧ FieldsHaveDistinctNames fields
  | _ => True

def ItemsHaveDistinctNames : List Value → Prop
  | [] => True
  | item :: rest => HasDistinctNames item ∧ ItemsHaveDistinctNames rest

def FieldsHaveDistinctNames : List (String × Value) → Prop
  | [] => True
  | (_, value) :: rest => HasDistinctNames value ∧ FieldsHaveDistinctNames rest

end

/-- Every number in a value is one. -/
def HasNumbersOnly (value : Value) : Prop :=
  ∀ number ∈ value.numbers, number.isNaN = false

theorem equalValue_self {number : Binary64} (isNumber : number.isNaN = false) :
    number.equalValue number = true := by
  cases number with
  | nan => cases isNumber
  | infinite => simp [Binary64.equalValue]
  | finite => simp [Binary64.equalValue]

mutual

theorem sameAs_self (value : Value) (distinct : value.HasDistinctNames)
    (numbers : value.HasNumbersOnly) : value.sameAs value = true := by
  cases value with
  | boolean | int | string | enum => exact beq_self_eq_true _
  | null => rfl
  | float number => exact equalValue_self (numbers number List.mem_cons_self)
  | list items => exact sameItems_self items distinct numbers
  | object fields =>
      obtain ⟨names, distinct⟩ := distinct
      have within := fieldsWithin_self fields fields (fun _ member => member) names distinct numbers
      exact Bool.and_eq_true_iff.mpr ⟨beq_self_eq_true _, within⟩

theorem sameItems_self (items : List Value) (distinct : ItemsHaveDistinctNames items)
    (numbers : ∀ number ∈ itemNumbers items, number.isNaN = false) :
    sameItems items items = true := by
  cases items with
  | nil => rfl
  | cons item rest =>
      obtain ⟨here, later⟩ := List.forall_mem_append.mp numbers
      exact Bool.and_eq_true_iff.mpr
        ⟨sameAs_self item distinct.1 here, sameItems_self rest distinct.2 later⟩

/-- Some of the fields of an object are all within it. -/
theorem fieldsWithin_self (fields whole : List (String × Value)) (inside : fields ⊆ whole)
    (names : (whole.map Prod.fst).Nodup) (distinct : FieldsHaveDistinctNames fields)
    (numbers : ∀ number ∈ fieldNumbers fields, number.isNaN = false) :
    fieldsWithin fields whole = true := by
  cases fields with
  | nil => rfl
  | cons field rest =>
      obtain ⟨name, value⟩ := field
      obtain ⟨member, others⟩ := List.cons_subset.mp inside
      obtain ⟨here, later⟩ := List.forall_mem_append.mp numbers
      have same := sameAs_self value distinct.1 here
      rw [fieldsWithin, lookup_of_mem names member]
      exact Bool.and_eq_true_iff.mpr
        ⟨same, fieldsWithin_self rest whole others names distinct.2 later⟩

end

end GraphqlReference.Value
