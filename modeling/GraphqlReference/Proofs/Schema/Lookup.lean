import Mathlib.Data.List.Nodup
import GraphqlReference.Schema

namespace GraphqlReference

theorem find?_named {α : Type} (name : α → String) {items : List α} {key : String} {item : α}
    (found : items.find? (name · == key) = some item) : item ∈ items ∧ name item = key := by
  have named := List.find?_some found
  exact ⟨List.mem_of_find?_eq_some found, beq_iff_eq.mp named⟩

theorem find?_eq_some_iff {α : Type} {name : α → String} {items : List α}
    (distinct : (items.map name).Nodup) {key : String} {item : α} :
    items.find? (name · == key) = some item ↔ item ∈ items ∧ name item = key := by
  refine ⟨find?_named name, fun ⟨member, named⟩ => ?_⟩
  cases found : items.find? (name · == key) with
  | none => exact absurd (beq_iff_eq.mpr named) (List.find?_eq_none.mp found item member)
  | some other =>
      obtain ⟨inside, same⟩ := find?_named name found
      rw [List.inj_on_of_nodup_map distinct inside member (same.trans named.symm)]

theorem find?_eq_none_iff {α : Type} {name : α → String} {items : List α} {key : String} :
    items.find? (name · == key) = none ↔ key ∉ items.map name := by
  simp

/-- Where names are distinct, it does not matter in which order they are looked up. -/
theorem find?_perm {α : Type} {name : α → String} {items items' : List α}
    (same : items.Perm items') (distinct : (items.map name).Nodup) (key : String) :
    items.find? (name · == key) = items'.find? (name · == key) := by
  refine Option.ext fun item => ?_
  have distinct' : (items'.map name).Nodup := (same.map name).nodup_iff.mp distinct
  rw [find?_eq_some_iff distinct, find?_eq_some_iff distinct', same.mem_iff]

/-- Sorting makes up for any order in which distinct names are declared. -/
theorem mergeSort_perm_eq {α : Type} (name : α → String) {before : α → α → Bool}
    (trans : ∀ first second third, before first second = true → before second third = true →
      before first third = true)
    (total : ∀ first second, (before first second || before second first) = true)
    (antisymm : ∀ {first second}, before first second = true → before second first = true →
      name first = name second)
    {items items' : List α} (same : items.Perm items') (distinct : (items.map name).Nodup) :
    items.mergeSort before = items'.mergeSort before := by
  have perm := (List.mergeSort_perm items before).trans
    (same.trans (List.mergeSort_perm items' before).symm)
  refine List.Perm.eq_of_pairwise ?_ (List.pairwise_mergeSort trans total items)
    (List.pairwise_mergeSort trans total items') perm
  intro first second member member' earlier later
  refine List.inj_on_of_nodup_map distinct ?_ ?_ (antisymm earlier later)
  · exact (List.mergeSort_perm items before).mem_iff.mp member
  · exact same.mem_iff.mpr ((List.mergeSort_perm items' before).mem_iff.mp member')

theorem lookup_eq_none {α : Type} {entries : List (String × α)} {name : String}
    (absent : name ∉ entries.map Prod.fst) : entries.lookup name = none := by
  refine List.lookup_eq_none_iff.mpr fun entry member => bne_iff_ne.mpr ?_
  rintro rfl
  exact absent (List.mem_map_of_mem member)

theorem lookup_of_mem {α : Type} {entries : List (String × α)} {name : String} {value : α}
    (distinct : (entries.map Prod.fst).Nodup) (member : (name, value) ∈ entries) :
    entries.lookup name = some value := by
  induction entries with
  | nil => exact absurd member List.not_mem_nil
  | cons entry rest ih =>
      obtain ⟨known, other⟩ := entry
      obtain ⟨fresh, distinct⟩ := List.nodup_cons.mp distinct
      rcases List.mem_cons.mp member with same | later
      · obtain ⟨rfl, rfl⟩ := Prod.mk.inj same
        exact List.lookup_cons_self
      · have different : name ≠ known := by
          rintro rfl
          exact fresh (List.mem_map.mpr ⟨(name, value), later, rfl⟩)
        rw [List.lookup_cons, beq_false_of_ne different]
        exact ih distinct later

theorem mem_of_lookup {α : Type} {entries : List (String × α)} {name : String} {value : α}
    (found : entries.lookup name = some value) : (name, value) ∈ entries := by
  obtain ⟨before, after, rfl, _⟩ := List.lookup_eq_some_iff.mp found
  exact List.mem_append_right _ List.mem_cons_self

theorem not_mem_of_lookup {α : Type} {entries : List (String × α)} {name : String}
    (absent : entries.lookup name = none) : name ∉ entries.map Prod.fst := by
  rintro member
  obtain ⟨entry, inside, rfl⟩ := List.mem_map.mp member
  exact bne_iff_ne.mp (List.lookup_eq_none_iff.mp absent entry inside) rfl

theorem lookup_perm {α : Type} {entries entries' : List (String × α)}
    (same : entries.Perm entries') (distinct : (entries.map Prod.fst).Nodup) (name : String) :
    entries.lookup name = entries'.lookup name := by
  refine Option.ext fun value => ⟨fun found => ?_, fun found => ?_⟩
  · have distinct' : (entries'.map Prod.fst).Nodup := (same.map Prod.fst).nodup_iff.mp distinct
    exact lookup_of_mem distinct' (same.mem_iff.mp (mem_of_lookup found))
  · exact lookup_of_mem distinct (same.mem_iff.mpr (mem_of_lookup found))

theorem lookup_map {α β : Type} {entries : List (String × α)} (change : String → α → β)
    (name : String) : (entries.map fun entry => (entry.1, change entry.1 entry.2)).lookup name =
      (entries.lookup name).map (change name) := by
  induction entries with
  | nil => rfl
  | cons entry rest ih =>
      obtain ⟨known, value⟩ := entry
      rw [List.map_cons, List.lookup_cons, List.lookup_cons]
      cases here : name == known with
      | true =>
          obtain rfl := beq_iff_eq.mp here
          rfl
      | false => exact ih

theorem setNamed_fresh {α : Type} {entries : List (String × α)} {name : String}
    (fresh : name ∉ entries.map Prod.fst) (value : α) :
    setNamed entries name value = entries ++ [(name, value)] := by
  induction entries with
  | nil => rfl
  | cons entry rest ih =>
      obtain ⟨known, old⟩ := entry
      obtain ⟨other, fresh⟩ := not_or.mp (mt List.mem_cons.mpr fresh)
      rw [setNamed, if_neg (Ne.symm other), ih fresh, List.cons_append]

theorem forall_setNamed {α : Type} {property : String × α → Prop} {entries : List (String × α)}
    {name : String} {value : α} (kept : ∀ entry ∈ entries, property entry)
    (added : property (name, value)) : ∀ entry ∈ setNamed entries name value, property entry := by
  induction entries with
  | nil => exact List.forall_mem_singleton.mpr added
  | cons first rest ih =>
      obtain ⟨known, old⟩ := first
      obtain ⟨keptFirst, keptRest⟩ := List.forall_mem_cons.mp kept
      unfold setNamed
      split
      · rename_i same
        exact List.forall_mem_cons.mpr ⟨same ▸ added, keptRest⟩
      · exact List.forall_mem_cons.mpr ⟨keptFirst, ih keptRest⟩

/-- What is found among some of the entries is what is found among all, if it is one of them. -/
theorem lookup_filter {α : Type} {entries : List (String × α)}
    (distinct : (entries.map Prod.fst).Nodup) (keep : String × α → Bool) (name : String) :
    (entries.filter keep).lookup name =
      (entries.lookup name).filter fun value => keep (name, value) := by
  induction entries with
  | nil => rfl
  | cons entry rest ih =>
      obtain ⟨known, value⟩ := entry
      obtain ⟨fresh, others⟩ := List.nodup_cons.mp distinct
      rw [List.filter_cons]
      by_cases here : name = known
      · subst here
        rw [List.lookup_cons_self, Option.filter_some]
        cases kept : keep (name, value) with
        | true => simp only [if_true, List.lookup_cons_self]
        | false =>
            rw [if_neg (by decide), if_neg (by decide), ih others, lookup_eq_none fresh]
            rfl
      · have skip : ∀ entries : List (String × α),
            ((known, value) :: entries).lookup name = entries.lookup name := fun entries => by
          rw [List.lookup_cons, beq_false_of_ne here]
        rw [skip, ← ih others]
        split
        · exact skip _
        · rfl

/-- Every value stands under the name that it bears, and no name stands twice. -/
structure IsIndexed {α : Type} (name : α → String) (entries : List (String × α)) : Prop where
  named : ∀ entry ∈ entries, entry.1 = name entry.2
  distinct : (entries.map Prod.fst).Nodup

section

variable {α : Type} {name : α → String} {items : List α} {entries : List (String × α)}

theorem keys_keyed : (keyed name items).map Prod.fst = items.map name :=
  List.map_map

theorem values_keyed : (keyed name items).map Prod.snd = items :=
  List.map_map.trans (List.map_id items)

theorem lookup_keyed (key : String) :
    (keyed name items).lookup key = items.find? (name · == key) := by
  induction items with
  | nil => rfl
  | cons item rest ih =>
      rw [keyed, List.map_cons, List.lookup_cons, List.find?_cons, ← ih, BEq.comm]
      rfl

theorem isIndexed_keyed (distinct : (items.map name).Nodup) :
    IsIndexed name (keyed name items) where
  named entry member := by
    obtain ⟨item, _, rfl⟩ := List.mem_map.mp member
    rfl
  distinct := by rwa [keys_keyed]

namespace IsIndexed

theorem eq_keyed (indexed : IsIndexed name entries) :
    entries = keyed name (entries.map Prod.snd) := by
  rw [keyed, List.map_map]
  refine (List.map_id entries).symm.trans (List.map_congr_left fun entry member => ?_)
  exact Prod.ext (indexed.named entry member) rfl

theorem values (indexed : IsIndexed name entries) : ((entries.map Prod.snd).map name).Nodup := by
  rw [← keys_keyed, ← indexed.eq_keyed]
  exact indexed.distinct

/-- The values found under names are those that bear them. -/
theorem lookup_eq (indexed : IsIndexed name entries) (key : String) :
    entries.lookup key = (entries.map Prod.snd).find? (name · == key) := by
  rw [← lookup_keyed, ← indexed.eq_keyed]

theorem lookup_eq_some (indexed : IsIndexed name entries) {key : String} {item : α} :
    entries.lookup key = some item ↔ (key, item) ∈ entries ∧ name item = key := by
  refine ⟨fun found => ?_, fun ⟨member, _⟩ => lookup_of_mem indexed.distinct member⟩
  have member := mem_of_lookup found
  exact ⟨member, (indexed.named _ member).symm⟩

theorem concat (indexed : IsIndexed name entries) {item : α}
    (absent : entries.lookup (name item) = none) :
    IsIndexed name (entries ++ [(name item, item)]) where
  named := List.forall_mem_append.mpr ⟨indexed.named, List.forall_mem_singleton.mpr rfl⟩
  distinct := by
    rw [List.map_append, List.map_singleton, ← List.concat_eq_append]
    exact indexed.distinct.concat (not_mem_of_lookup absent)

theorem map (indexed : IsIndexed name entries) {change : String → α → α}
    (kept : ∀ key item, name (change key item) = name item) :
    IsIndexed name (entries.map fun entry => (entry.1, change entry.1 entry.2)) where
  named := List.forall_mem_map.mpr fun entry member =>
    (indexed.named entry member).trans (kept entry.1 entry.2).symm
  distinct := by
    rw [List.map_map]
    exact indexed.distinct

end IsIndexed

end

theorem Schema.type?_eq_some {schema : Schema} {name : String} {definition : TypeDefinition}
    (found : schema.type? name = some definition) :
    definition ∈ schema.types ∧ definition.name = name :=
  find?_named TypeDefinition.name found

theorem Schema.directive?_eq_some {schema : Schema} {name : String}
    {definition : DirectiveDefinition} (found : schema.directive? name = some definition) :
    definition ∈ schema.directives ∧ definition.name = name :=
  find?_named DirectiveDefinition.name found

theorem DirectiveDefinition.argument?_eq_some {definition : DirectiveDefinition} {name : String}
    {argument : Argument} (found : definition.argument? name = some argument) :
    argument ∈ definition.arguments ∧ argument.name = name :=
  find?_named Argument.name found

end GraphqlReference
