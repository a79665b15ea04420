import GraphqlReference.Page.Usage
import GraphqlReference.Proofs.Outcome
import GraphqlReference.Proofs.Schema.Defaults

namespace GraphqlReference.Page

open Html

theorem isDeclaredDefault_eq {definition : DirectiveDefinition} {argument : Argument}
    {name : String} (value : Value) (found : definition.argument? name = some argument) :
    isDeclaredDefault argument value = definition.isDefault name value := by
  unfold isDeclaredDefault DirectiveDefinition.isDefault DirectiveDefinition.default?
  rw [found, Option.bind_some]
  cases argument.default <;> rfl

/-- The arguments of a usage can be shown if all are declared and those that differ can be written;
these are what is shown. -/
theorem suppliedArguments_eq_ok {definition : DirectiveDefinition}
    {supplied : List (String × Value)} {parts : List Fragment} :
    suppliedArguments definition supplied = .ok parts ↔
      (∀ entry ∈ supplied, (definition.argument? entry.1).isSome = true) ∧
        List.Forall₂ (fun entry part => suppliedArgument entry.1 entry.2 = .ok part)
          (definition.differing supplied) parts := by
  induction supplied generalizing parts with
  | nil =>
      constructor
      · rintro ⟨⟩
        exact ⟨fun _ member => absurd member List.not_mem_nil, .nil⟩
      · rintro ⟨_, ⟨⟩⟩
        rfl
  | cons entry rest ih =>
      obtain ⟨name, value⟩ := entry
      rw [suppliedArguments, List.forall_mem_cons]
      cases found : definition.argument? name with
      | none => simp
      | some argument =>
          simp only [isDeclaredDefault_eq value found, Option.isSome_some, true_and]
          cases same : definition.isDefault name value with
          | true =>
              rw [DirectiveDefinition.differing, List.filter_cons_of_neg (by simp [same]),
                if_pos rfl]
              exact ih
          | false =>
              rw [DirectiveDefinition.differing, List.filter_cons_of_pos (by simp [same]),
                if_neg Bool.false_ne_true, bind_eq_ok, List.forall₂_cons_left_iff]
              constructor
              · rintro ⟨part, printed, more⟩
                obtain ⟨others, printedOthers, ⟨⟩⟩ := bind_eq_ok.mp more
                obtain ⟨declared, shown⟩ := ih.mp printedOthers
                exact ⟨declared, part, others, printed, shown, rfl⟩
              · rintro ⟨declared, part, others, printed, shown, rfl⟩
                exact ⟨part, printed, bind_eq_ok.mpr ⟨others, ih.mpr ⟨declared, shown⟩, rfl⟩⟩

theorem mem_of_suppliedArguments {definition : DirectiveDefinition}
    {supplied : List (String × Value)} {parts : List Fragment}
    (printed : suppliedArguments definition supplied = .ok parts) {part : Fragment}
    (member : part ∈ parts) : ∃ entry ∈ supplied,
      (∃ argument, definition.argument? entry.1 = some argument) ∧
        suppliedArgument entry.1 entry.2 = .ok part := by
  obtain ⟨declared, shown⟩ := suppliedArguments_eq_ok.mp printed
  obtain ⟨entry, differs, printedEntry⟩ := mem_of_forall₂ shown member
  have inside : entry ∈ supplied := List.mem_of_mem_filter differs
  exact ⟨entry, inside, Option.isSome_iff_exists.mp (declared entry inside), printedEntry⟩

/-- Supplied arguments ask of a directive nothing but its name and what it declares for them. -/
theorem suppliedArguments_congr {definition definition' : DirectiveDefinition}
    (named : definition.name = definition'.name)
    (declared : ∀ name, (definition.argument? name).map Argument.default =
      (definition'.argument? name).map Argument.default) :
    suppliedArguments definition = suppliedArguments definition' := by
  funext arguments
  induction arguments with
  | nil => rfl
  | cons first rest ih =>
      obtain ⟨name, value⟩ := first
      have same := declared name
      unfold suppliedArguments
      cases found : definition.argument? name with
      | none =>
          rw [found, Option.map_none, eq_comm, Option.map_eq_none_iff] at same
          simp only [same, named]
      | some argument =>
          rw [found, Option.map_some, eq_comm, Option.map_eq_some_iff] at same
          obtain ⟨argument', found', default⟩ := same
          have alike : isDeclaredDefault argument = isDeclaredDefault argument' := by
            unfold isDeclaredDefault
            rw [default]
          simp only [found', alike, ih]

/-- A usage shows the link to its directive and the supplied arguments that differ from what is
declared, in the order of their supply. -/
theorem usage_eq_ok {schema : Schema} {use : DirectiveUsage} {definition : DirectiveDefinition}
    (found : schema.directive? use.directive = some definition)
    (declared : ∀ entry ∈ use.arguments, (definition.argument? entry.1).isSome = true)
    {shown : Fragment} : usage schema use = .ok shown ↔
      ∃ link parts, directiveLink schema use.directive = .ok link ∧
        List.Forall₂ (fun entry part => suppliedArgument entry.1 entry.2 = .ok part)
          (definition.differing use.arguments) parts ∧
        shown = .spacer :: link ++ parenthesized parts := by
  unfold usage
  simp only [found, bind_eq_ok, suppliedArguments_eq_ok]
  constructor
  · rintro ⟨parts, ⟨_, differing⟩, link, linked, ⟨⟩⟩
    exact ⟨link, parts, linked, differing, rfl⟩
  · rintro ⟨link, parts, linked, differing, rfl⟩
    exact ⟨parts, ⟨declared, differing⟩, link, linked, rfl⟩

end GraphqlReference.Page
