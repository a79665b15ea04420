import Mathlib.Data.List.Forall2
import Mathlib.Data.List.Perm.Subperm
import GraphqlReference.Proofs.Outcome
import GraphqlReference.Proofs.Schema.Writable
import GraphqlReference.Proofs.Value.Equality

namespace GraphqlReference.Value

/-!
Values up to the order of the fields in their objects. Each has a canonical form, in which fields
are sorted by name, and comparing values is comparing these forms.
-/

/-- Induction over a value and what it holds. -/
theorem partsInduction {motive : Value → Prop} (boolean : ∀ value, motive (.boolean value))
    (int : ∀ value, motive (.int value)) (float : ∀ value, motive (.float value))
    (string : ∀ text, motive (.string text)) (enum : ∀ name, motive (.enum name))
    (null : motive .null)
    (list : ∀ items, (∀ item ∈ items, motive item) → motive (.list items))
    (object : ∀ fields, (∀ field ∈ fields, motive field.2) → motive (.object fields))
    (value : Value) : motive value :=
  Value.rec (motive_1 := motive) (motive_2 := fun items => ∀ item ∈ items, motive item)
    (motive_3 := fun fields => ∀ field ∈ fields, motive field.2)
    (motive_4 := fun field => motive field.2)
    boolean int float string enum null list object
    (fun _ member => absurd member List.not_mem_nil)
    (fun _ _ here later => List.forall_mem_cons.mpr ⟨here, later⟩)
    (fun _ member => absurd member List.not_mem_nil)
    (fun _ _ here later => List.forall_mem_cons.mpr ⟨here, later⟩)
    (fun _ _ here => here) value

def nameBefore (first second : String × Value) : Bool :=
  decide (first.1 ≤ second.1)

mutual

/-- A value with the fields of each object in the order of their names. -/
def canonical : Value → Value
  | .list items => .list (canonicalItems items)
  | .object fields => .object ((canonicalFields fields).mergeSort nameBefore)
  | leaf => leaf

def canonicalItems : List Value → List Value
  | [] => []
  | item :: rest => canonical item :: canonicalItems rest

def canonicalFields : List (String × Value) → List (String × Value)
  | [] => []
  | (name, value) :: rest => (name, canonical value) :: canonicalFields rest

end

theorem canonicalItems_eq (items : List Value) : canonicalItems items = items.map canonical := by
  induction items with
  | nil => rfl
  | cons item rest ih => rw [canonicalItems, ih, List.map_cons]

theorem canonicalFields_eq (fields : List (String × Value)) :
    canonicalFields fields = fields.map fun field => (field.1, field.2.canonical) := by
  induction fields with
  | nil => rfl
  | cons field rest ih => rw [canonicalFields, ih, List.map_cons]

theorem canonicalFields_eq_zip (fields : List (String × Value)) : canonicalFields fields =
    (fields.map Prod.fst).zip ((fields.map Prod.snd).map canonical) := by
  rw [canonicalFields_eq, List.map_map, List.zip_map']
  rfl

theorem names_canonicalFields (fields : List (String × Value)) :
    (canonicalFields fields).map Prod.fst = fields.map Prod.fst := by
  rw [canonicalFields_eq, List.map_map]
  rfl

/-- Fields with distinct names can be sorted in one way only. -/
theorem mergeSort_nameBefore_eq_iff {fields fields' : List (String × Value)}
    (distinct : (fields.map Prod.fst).Nodup) :
    fields.mergeSort nameBefore = fields'.mergeSort nameBefore ↔ fields.Perm fields' := by
  constructor
  · intro same
    exact (List.mergeSort_perm fields nameBefore).symm.trans
      (same ▸ List.mergeSort_perm fields' nameBefore)
  · intro perm
    refine mergeSort_perm_eq Prod.fst ?_ ?_ ?_ perm distinct
    · intro first second third before before'
      exact decide_eq_true
        (String.le_trans (of_decide_eq_true before) (of_decide_eq_true before'))
    · intro first second
      rw [Bool.or_eq_true]
      exact (String.le_total first.1 second.1).imp decide_eq_true decide_eq_true
    · intro first second before before'
      exact String.le_antisymm (of_decide_eq_true before) (of_decide_eq_true before')

theorem canonical_object_eq_iff {fields fields' : List (String × Value)}
    (distinct : (fields.map Prod.fst).Nodup) :
    (object fields).canonical = (object fields').canonical ↔
      (canonicalFields fields).Perm (canonicalFields fields') := by
  rw [canonical, canonical, object.injEq]
  exact mergeSort_nameBefore_eq_iff (by rwa [names_canonicalFields])

theorem fieldsHaveDistinctNames_iff {fields : List (String × Value)} :
    FieldsHaveDistinctNames fields ↔ ∀ field ∈ fields, field.2.HasDistinctNames := by
  induction fields with
  | nil => simp [FieldsHaveDistinctNames]
  | cons field rest ih => rw [FieldsHaveDistinctNames, ih, List.forall_mem_cons]

theorem itemsHaveDistinctNames_iff {items : List Value} :
    ItemsHaveDistinctNames items ↔ ∀ item ∈ items, item.HasDistinctNames := by
  induction items with
  | nil => simp [ItemsHaveDistinctNames]
  | cons item rest ih => rw [ItemsHaveDistinctNames, ih, List.forall_mem_cons]

theorem sameItems_iff {items items' : List Value} : sameItems items items' = true ↔
    List.Forall₂ (fun item item' => item.sameAs item' = true) items items' := by
  induction items generalizing items' with
  | nil => cases items' <;> simp [sameItems]
  | cons item rest ih =>
      cases items' with
      | nil => simp [sameItems]
      | cons item' rest' => simp [sameItems, ih]

/-- Fields are found under their names among others with distinct names. -/
theorem fieldsWithin_iff {fields fields' : List (String × Value)}
    (distinct : (fields'.map Prod.fst).Nodup) : fieldsWithin fields fields' = true ↔
      ∀ field ∈ fields, ∃ value, (field.1, value) ∈ fields' ∧ field.2.sameAs value = true := by
  induction fields with
  | nil => simp [fieldsWithin]
  | cons field rest ih =>
      obtain ⟨name, value⟩ := field
      rw [fieldsWithin, Bool.and_eq_true, ih, List.forall_mem_cons]
      refine and_congr_left fun _ => ?_
      cases found : fields'.lookup name with
      | none =>
          have absent : ∀ other, (name, other) ∉ fields' := fun other member =>
            Option.some_ne_none _ ((lookup_of_mem distinct member).symm.trans found)
          simp [absent]
      | some value' =>
          obtain ⟨before, after, rfl, _⟩ := List.lookup_eq_some_iff.mp found
          constructor
          · exact fun same => ⟨value', by simp, same⟩
          · rintro ⟨other, member, same⟩
            obtain rfl : value' = other :=
              Option.some.inj (found.symm.trans (lookup_of_mem distinct member))
            exact same

theorem sameAs_object_iff {fields fields' : List (String × Value)}
    (distinct : (fields'.map Prod.fst).Nodup) : (object fields).sameAs (object fields') = true ↔
      fields.length = fields'.length ∧
        ∀ field ∈ fields, ∃ value, (field.1, value) ∈ fields' ∧ field.2.sameAs value = true := by
  rw [sameAs, Bool.and_eq_true, beq_iff_eq, fieldsWithin_iff distinct]

/-- Where values are the same if their forms are, objects are the same if the forms of their fields
are the same up to order. -/
theorem sameAs_object_iff_perm {fields fields' : List (String × Value)}
    (distinct : (fields.map Prod.fst).Nodup) (distinct' : (fields'.map Prod.fst).Nodup)
    (values : ∀ field ∈ fields, ∀ field' ∈ fields',
      field.2.sameAs field'.2 = true ↔ field.2.canonical = field'.2.canonical) :
    (object fields).sameAs (object fields') = true ↔
      (canonicalFields fields).Perm (canonicalFields fields') := by
  rw [sameAs_object_iff distinct', canonicalFields_eq, canonicalFields_eq]
  constructor
  · rintro ⟨length, within⟩
    have forms : ((canonicalFields fields).map Prod.fst).Nodup := by rwa [names_canonicalFields]
    rw [canonicalFields_eq] at forms
    refine (List.subperm_of_subset (List.Nodup.of_map _ forms) ?_).perm_of_length_le
      (by simp [length])
    intro entry member
    obtain ⟨field, inside, rfl⟩ := List.mem_map.mp member
    obtain ⟨value, inside', same⟩ := within field inside
    rw [(values field inside _ inside').mp same]
    exact List.mem_map_of_mem inside'
  · intro perm
    refine ⟨by simpa using perm.length_eq, fun field inside => ?_⟩
    obtain ⟨⟨name, value⟩, inside', same⟩ :=
      List.mem_map.mp (perm.subset (List.mem_map_of_mem inside))
    obtain ⟨rfl, forms⟩ := Prod.mk.inj same
    exact ⟨value, inside', (values field inside _ inside').mpr forms.symm⟩

/-- A value without floats in which each object has each of its names once. -/
structure IsDiscrete (value : Value) : Prop where
  distinct : value.HasDistinctNames
  floatless : value.numbers = []

theorem isDiscrete_list {items : List Value} :
    (list items).IsDiscrete ↔ ∀ item ∈ items, item.IsDiscrete := by
  constructor
  · rintro ⟨distinct, floatless⟩ item member
    rw [numbers, itemNumbers_eq, List.flatMap_eq_nil_iff] at floatless
    exact ⟨itemsHaveDistinctNames_iff.mp distinct item member, floatless item member⟩
  · intro discrete
    refine ⟨itemsHaveDistinctNames_iff.mpr fun item member => (discrete item member).distinct, ?_⟩
    rw [numbers, itemNumbers_eq, List.flatMap_eq_nil_iff]
    exact fun item member => (discrete item member).floatless

theorem isDiscrete_object {fields : List (String × Value)} : (object fields).IsDiscrete ↔
    (fields.map Prod.fst).Nodup ∧ ∀ field ∈ fields, field.2.IsDiscrete := by
  constructor
  · rintro ⟨⟨names, distinct⟩, floatless⟩
    rw [numbers, fieldNumbers_eq, List.flatMap_eq_nil_iff] at floatless
    exact ⟨names, fun field member =>
      ⟨fieldsHaveDistinctNames_iff.mp distinct field member, floatless field member⟩⟩
  · rintro ⟨names, discrete⟩
    have distinct := fieldsHaveDistinctNames_iff.mpr fun field member =>
      (discrete field member).distinct
    refine ⟨⟨names, distinct⟩, ?_⟩
    rw [numbers, fieldNumbers_eq, List.flatMap_eq_nil_iff]
    exact fun field member => (discrete field member).floatless

section

variable {α β : Type} {first second : α → β → Prop} {items : List α} {items' : List β}

theorem forall₂_imp_mem (all : List.Forall₂ first items items')
    (implied : ∀ item ∈ items, ∀ item' ∈ items', first item item' → second item item') :
    List.Forall₂ second items items' := by
  induction all with
  | nil => exact .nil
  | cons here _ ih =>
      refine .cons (implied _ List.mem_cons_self _ List.mem_cons_self here) ?_
      exact ih fun item member item' member' =>
        implied item (List.mem_cons_of_mem _ member) item' (List.mem_cons_of_mem _ member')

theorem forall₂_congr_mem
    (same : ∀ item ∈ items, ∀ item' ∈ items', first item item' ↔ second item item') :
    List.Forall₂ first items items' ↔ List.Forall₂ second items items' :=
  ⟨fun all => forall₂_imp_mem all fun item member item' member' =>
      (same item member item' member').mp,
    fun all => forall₂_imp_mem all fun item member item' member' =>
      (same item member item' member').mpr⟩

end

theorem forall₂_eq_map {α β : Type} {change : α → β} {items items' : List α} :
    List.Forall₂ (fun item item' => change item = change item') items items' ↔
      items.map change = items'.map change := by
  rw [← List.forall₂_eq_eq_eq, List.forall₂_map_left_iff, List.forall₂_map_right_iff]

theorem sameAs_iff_canonical {left right : Value} (discrete : left.IsDiscrete)
    (discrete' : right.IsDiscrete) :
    left.sameAs right = true ↔ left.canonical = right.canonical := by
  induction left using partsInduction generalizing right with
  | boolean | int | string | enum | null =>
      cases right <;> simp [sameAs, canonical]
  | float => cases discrete.floatless
  | list items ih =>
      cases right with
      | list items' =>
          rw [sameAs, sameItems_iff, canonical, canonical, list.injEq, canonicalItems_eq,
            canonicalItems_eq, ← forall₂_eq_map]
          exact forall₂_congr_mem fun item member item' member' => ih item member
            (isDiscrete_list.mp discrete item member) (isDiscrete_list.mp discrete' item' member')
      | boolean | int | string | enum | null | float | object => simp [sameAs, canonical]
  | object fields ih =>
      cases right with
      | object fields' =>
          obtain ⟨names, values⟩ := isDiscrete_object.mp discrete
          obtain ⟨names', values'⟩ := isDiscrete_object.mp discrete'
          rw [canonical_object_eq_iff names]
          exact sameAs_object_iff_perm names names' fun field member field' member' =>
            ih field member (values field member) (values' field' member')
      | boolean | int | string | enum | null | float | list => simp [sameAs, canonical]

/-- Where values are the same exactly if their forms are, so are objects. -/
theorem sameAs_canonical_object {fields fields' : List (String × Value)}
    (distinct' : (fields'.map Prod.fst).Nodup)
    (values : ∀ field ∈ fields, ∀ field' ∈ fields',
      field.2.canonical.sameAs field'.2.canonical = true ↔ field.2.sameAs field'.2 = true) :
    (object fields).canonical.sameAs (object fields').canonical = true ↔
      (object fields).sameAs (object fields') = true := by
  have sorted : (((canonicalFields fields').mergeSort nameBefore).map Prod.fst).Nodup :=
    ((List.mergeSort_perm _ _).map _).nodup_iff.mpr (by rwa [names_canonicalFields])
  rw [canonical, canonical, sameAs_object_iff sorted, sameAs_object_iff distinct']
  simp only [List.length_mergeSort, List.mem_mergeSort, canonicalFields_eq, List.length_map,
    List.mem_map]
  refine and_congr_right fun _ => ⟨fun within field inside => ?_, ?_⟩
  · obtain ⟨_, ⟨field', inside', written⟩, same⟩ := within _ ⟨field, inside, rfl⟩
    obtain ⟨name, rfl⟩ := Prod.mk.inj written
    exact ⟨field'.2, name ▸ inside', (values field inside field' inside').mp same⟩
  · rintro within _ ⟨field, inside, rfl⟩
    obtain ⟨value, inside', same⟩ := within field inside
    exact ⟨value.canonical, ⟨_, inside', rfl⟩, (values field inside _ inside').mpr same⟩

theorem sameAs_canonical {left right : Value} (distinct : left.HasDistinctNames)
    (distinct' : right.HasDistinctNames) :
    left.canonical.sameAs right.canonical = left.sameAs right := by
  refine Bool.eq_iff_iff.mpr ?_
  induction left using partsInduction generalizing right with
  | boolean | int | string | enum | null | float => cases right <;> simp [sameAs, canonical]
  | list items ih =>
      cases right with
      | list items' =>
          rw [canonical, canonical, sameAs, sameAs, sameItems_iff, sameItems_iff, canonicalItems_eq,
            canonicalItems_eq, List.forall₂_map_left_iff, List.forall₂_map_right_iff]
          exact forall₂_congr_mem fun item member item' member' => ih item member
            (itemsHaveDistinctNames_iff.mp distinct item member)
            (itemsHaveDistinctNames_iff.mp distinct' item' member')
      | boolean | int | string | enum | null | float | object => simp [sameAs, canonical]
  | object fields ih =>
      cases right with
      | object fields' =>
          exact sameAs_canonical_object distinct'.1 fun field member field' member' =>
            ih field member (fieldsHaveDistinctNames_iff.mp distinct.2 field member)
              (fieldsHaveDistinctNames_iff.mp distinct'.2 field' member')
      | boolean | int | string | enum | null | float | list => simp [sameAs, canonical]

end GraphqlReference.Value
