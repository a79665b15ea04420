import GraphqlReference.Page.Usage
import GraphqlReference.Proofs.Value.Canonical

namespace GraphqlReference.Value

/-- Two values that differ in nothing but the order of fields, at any depth. -/
inductive Reordered : Value → Value → Prop
  | same (value : Value) : Reordered value value
  | list {items items' : List Value} : List.Forall₂ Reordered items items' →
      Reordered (.list items) (.list items')
  | object {fields between fields' : List (String × Value)} :
      fields.map Prod.fst = between.map Prod.fst →
      List.Forall₂ Reordered (fields.map Prod.snd) (between.map Prod.snd) →
      between.Perm fields' → Reordered (.object fields) (.object fields')

theorem names_reordered {fields between fields' : List (String × Value)}
    (names : fields.map Prod.fst = between.map Prod.fst) (perm : between.Perm fields') :
    (fields.map Prod.fst).Perm (fields'.map Prod.fst) :=
  names ▸ perm.map Prod.fst

theorem Reordered.hasDistinctNames {value value' : Value} (reordered : value.Reordered value')
    (distinct : value.HasDistinctNames) : value'.HasDistinctNames := by
  induction value using partsInduction generalizing value' with
  | boolean | int | string | enum | null | float =>
      cases reordered
      exact distinct
  | list items ih =>
      cases reordered with
      | same => exact distinct
      | list all =>
          refine itemsHaveDistinctNames_iff.mpr fun item' member' => ?_
          obtain ⟨item, member, here⟩ := mem_of_forall₂ all member'
          exact ih item member here (itemsHaveDistinctNames_iff.mp distinct item member)
  | object fields ih =>
      cases reordered with
      | same => exact distinct
      | object names all perm =>
          obtain ⟨distinct, values⟩ := distinct
          refine ⟨(names_reordered names perm).nodup_iff.mp distinct,
            fieldsHaveDistinctNames_iff.mpr fun field' member' => ?_⟩
          obtain ⟨_, inside, here⟩ :=
            mem_of_forall₂ all (List.mem_map_of_mem (perm.mem_iff.mpr member'))
          obtain ⟨field, member, rfl⟩ := List.mem_map.mp inside
          exact ih field member here (fieldsHaveDistinctNames_iff.mp values field member)

theorem map_canonical_eq {values values' : List Value}
    (all : List.Forall₂ Reordered values values')
    (forms : ∀ value ∈ values, ∀ value', value.Reordered value' →
      value.canonical = value'.canonical) :
    values.map canonical = values'.map canonical :=
  forall₂_eq_map.mp (forall₂_imp_mem all fun value member value' _ => forms value member value')

/-- Values that differ in the order of fields only have the same form. -/
theorem Reordered.canonical_eq {value value' : Value} (reordered : value.Reordered value')
    (distinct : value.HasDistinctNames) : value.canonical = value'.canonical := by
  induction value using partsInduction generalizing value' with
  | boolean | int | string | enum | null | float =>
      cases reordered
      rfl
  | list items ih =>
      cases reordered with
      | same => rfl
      | list all =>
          have forms := map_canonical_eq all fun item member item' reordered =>
            ih item member reordered (itemsHaveDistinctNames_iff.mp distinct item member)
          rw [canonical, canonical, canonicalItems_eq, canonicalItems_eq, forms]
  | object fields ih =>
      cases reordered with
      | same => rfl
      | object names all perm =>
          obtain ⟨distinct, values⟩ := distinct
          have forms := map_canonical_eq all fun value member value' reordered => by
            obtain ⟨field, inside, rfl⟩ := List.mem_map.mp member
            exact ih field inside reordered (fieldsHaveDistinctNames_iff.mp values field inside)
          rw [canonical_object_eq_iff distinct, canonicalFields_eq_zip, names, forms,
            ← canonicalFields_eq_zip, canonicalFields_eq, canonicalFields_eq]
          exact perm.map _

/-- The order of fields does not matter on either side of a comparison. -/
theorem sameAs_reordered {left left' right right' : Value} (distinct : left.HasDistinctNames)
    (distinct' : right.HasDistinctNames) (reordered : left.Reordered left')
    (reordered' : right.Reordered right') : left.sameAs right = left'.sameAs right' := by
  rw [← sameAs_canonical distinct distinct', reordered.canonical_eq distinct,
    reordered'.canonical_eq distinct', sameAs_canonical (reordered.hasDistinctNames distinct)
      (reordered'.hasDistinctNames distinct')]

theorem names_perm_of_sameAs {fields fields' : List (String × Value)}
    (distinct : (fields.map Prod.fst).Nodup) (distinct' : (fields'.map Prod.fst).Nodup)
    (same : (object fields).sameAs (object fields') = true) :
    (fields.map Prod.fst).Perm (fields'.map Prod.fst) := by
  obtain ⟨length, within⟩ := (sameAs_object_iff distinct').mp same
  refine (List.subperm_of_subset distinct fun name member => ?_).perm_of_length_le
    (by simp [length])
  obtain ⟨field, inside, rfl⟩ := List.mem_map.mp member
  obtain ⟨value, inside', _⟩ := within field inside
  exact List.mem_map.mpr ⟨_, inside', rfl⟩

/-- The kinds of values. -/
inductive Kind where
  | boolean
  | int
  | float
  | string
  | enum
  | null
  | list
  | object
  deriving DecidableEq, Repr

def kind : Value → Kind
  | .boolean _ => .boolean
  | .int _ => .int
  | .float _ => .float
  | .string _ => .string
  | .enum _ => .enum
  | .null => .null
  | .list _ => .list
  | .object _ => .object

theorem kind_eq_of_sameAs {left right : Value} (same : left.sameAs right = true) :
    left.kind = right.kind := by
  cases left <;> cases right <;> first | rfl | cases same

/-- A comparison of values that sees everything but the order of fields. -/
structure IsStructural (same : Value → Value → Bool) : Prop where
  canonical (left right : Value) : left.IsDiscrete → right.IsDiscrete →
    (same left right = true ↔ left.canonical = right.canonical)
  equivalence :
    Equivalence fun left right : {value : Value // value.IsDiscrete} => same left right = true
  reordered (left left' right right' : Value) : left.HasDistinctNames → right.HasDistinctNames →
    left.Reordered left' → right.Reordered right' → same left right = same left' right'
  items (items items' : List Value) : same (.list items) (.list items') = true ↔
    List.Forall₂ (fun item item' => same item item' = true) items items'
  kind (left right : Value) : same left right = true → left.kind = right.kind
  names (fields fields' : List (String × Value)) : (fields.map Prod.fst).Nodup →
    (fields'.map Prod.fst).Nodup → same (.object fields) (.object fields') = true →
      (fields.map Prod.fst).Perm (fields'.map Prod.fst)

theorem equivalence_sameAs :
    Equivalence fun left right : {value : Value // value.IsDiscrete} =>
      left.1.sameAs right.1 = true := by
  have forms (left right : {value : Value // value.IsDiscrete}) :=
    sameAs_iff_canonical left.2 right.2
  simp only [forms]
  exact ⟨fun _ => rfl, Eq.symm, Eq.trans⟩

/-- Comparing values without floats is comparing their canonical forms. Whether a supplied argument
is the declared default does not depend on the order of fields in either. -/
theorem isStructural_sameAs :
    IsStructural sameAs ∧
      ∀ (argument argument' : Argument) (value value' : Value),
        (∀ default ∈ argument.default, default.HasDistinctNames) → value.HasDistinctNames →
        Option.Rel Reordered argument.default argument'.default → value.Reordered value' →
          Page.isDeclaredDefault argument value = Page.isDeclaredDefault argument' value' := by
  constructor
  · exact
      { canonical := fun _ _ => sameAs_iff_canonical
        equivalence := equivalence_sameAs
        reordered := fun _ _ _ _ => sameAs_reordered
        items := fun _ _ => sameItems_iff
        kind := fun _ _ => kind_eq_of_sameAs
        names := fun _ _ => names_perm_of_sameAs }
  · intro argument argument' value value' declared distinct defaults reordered
    unfold Page.isDeclaredDefault
    generalize argument.default = default at declared defaults ⊢
    generalize argument'.default = default' at defaults ⊢
    cases defaults with
    | none => rfl
    | some here => exact sameAs_reordered (declared _ rfl) distinct here reordered

def rangeValue : Value :=
  .object [("range", .list [.object [("from", .int 1), ("to", .int 2)]]), ("unit", .enum "DAY")]

def rangeReordered : Value :=
  .object [("unit", .enum "DAY"), ("range", .list [.object [("to", .int 2), ("from", .int 1)]])]

theorem reordered_rangeValue : rangeValue.Reordered rangeReordered := by
  have inner : (object [("from", .int 1), ("to", .int 2)]).Reordered
      (.object [("to", .int 2), ("from", .int 1)]) :=
    .object rfl (.cons (.same _) (.cons (.same _) .nil)) (.swap _ _ _)
  have range : (list [.object [("from", .int 1), ("to", .int 2)]]).Reordered
      (.list [.object [("to", .int 2), ("from", .int 1)]]) := .list (.cons inner .nil)
  exact @Reordered.object _
    [("range", .list [.object [("to", .int 2), ("from", .int 1)]]), ("unit", .enum "DAY")] _ rfl
    (.cons range (.cons (.same _) .nil)) (.swap _ _ _)

theorem isDiscrete_rangeValue : rangeValue.IsDiscrete := by
  refine ⟨?_, rfl⟩
  simp [rangeValue, HasDistinctNames, ItemsHaveDistinctNames, FieldsHaveDistinctNames]

/-- Fields may be swapped inside a list and around it, and the default is still the default. -/
theorem isStructural_sameAs_range :
    rangeValue.sameAs rangeReordered = true ∧
      Page.isDeclaredDefault ⟨"x", none, .named "T", some rangeValue, []⟩ rangeReordered =
        true := by
  obtain ⟨structural, shown⟩ := isStructural_sameAs
  have distinct := isDiscrete_rangeValue.distinct
  have itself : rangeValue.sameAs rangeValue = true :=
    structural.equivalence.refl ⟨rangeValue, isDiscrete_rangeValue⟩
  constructor
  · rw [← structural.reordered _ _ _ _ distinct distinct (.same _) reordered_rangeValue]
    exact itself
  · rw [← shown ⟨"x", none, .named "T", some rangeValue, []⟩ _ _ _ (by simpa using distinct)
      distinct (.some (.same _)) reordered_rangeValue]
    exact itself

end GraphqlReference.Value
