import GraphqlReference.Proofs.Page.Comparing
import GraphqlReference.Proofs.Page.PlainText
import GraphqlReference.Schema.BuiltIn

namespace GraphqlReference.Page

open Html

/-- An argument with a value that is declared anyway leaves no trace. -/
theorem suppliedArguments_spares {definition : DirectiveDefinition}
    {supplied supplied' : List (String × Value)}
    (spares : Spares (fun entry => definition.isDefault entry.1 entry.2 = true) supplied
      supplied') :
    suppliedArguments definition supplied = suppliedArguments definition supplied' := by
  induction spares with
  | nil => rfl
  | kept entry _ ih =>
      obtain ⟨name, value⟩ := entry
      unfold suppliedArguments
      rw [ih]
  | @dropped entry entries entries' spared _ ih =>
      obtain ⟨name, value⟩ := entry
      obtain ⟨default, declared, _⟩ := DirectiveDefinition.isDefault_iff.mp spared
      obtain ⟨argument, found, _⟩ := Option.bind_eq_some_iff.mp declared
      rw [suppliedArguments, found, ← ih]
      exact if_pos ((isDeclaredDefault_eq value found).trans spared)

theorem fragments_thinned {schema schema' : Schema} (thinned : schema.Thinned schema') :
    fragments schema = fragments schema' := by
  refine fragments_exact (.thinning schema) id (.of_like thinned ?_) (declarations_like thinned)
  rintro ⟨directive, supplied⟩ ⟨_, supplied'⟩ ⟨⟨⟩, spares⟩
  refine ⟨rfl, fun definition found => suppliedArguments_spares ?_⟩
  have declared : schema.Declares directive =
      fun entry => definition.isDefault entry.1 entry.2 = true := by
    funext entry
    simp [Schema.Declares, Option.mem_def.mp found]
  exact declared ▸ spares

/-- Nothing is lost with the arguments that a usage does not show: it shows, in the order of supply,
those whose values are not the declared ones, by name and value behind the name of the directive;
these give every argument the value that all supplied ones give it, and the document about a schema
is the same without the others. -/
theorem render_without_defaults (schema : Schema) :
    (∀ use definition, schema.directive? use.directive = some definition →
      (∀ entry ∈ use.arguments, (definition.argument? entry.1).isSome = true) →
      (∀ shown, usage schema use = .ok shown ↔
        ∃ link parts, directiveLink schema use.directive = .ok link ∧
          List.Forall₂ (fun entry part => suppliedArgument entry.1 entry.2 = .ok part)
            (definition.differing use.arguments) parts ∧
          shown = .spacer :: link ++ parenthesized parts) ∧
      (∀ shown, usage schema use = .ok shown →
        plainText shown.write = usageText use.directive (definition.differing use.arguments)) ∧
      ((use.arguments.map Prod.fst).Nodup →
        (∀ entry ∈ use.arguments, entry.2.HasDistinctNames ∧ entry.2.HasNumbersOnly) →
        (∀ argument ∈ definition.arguments, ∀ default ∈ argument.default,
          default.HasDistinctNames ∧ default.HasNumbersOnly) →
        ∀ name, Option.Rel (fun value value' => value.sameAs value' = true)
          (definition.valueOf (definition.differing use.arguments) name)
          (definition.valueOf use.arguments name))) ∧
      ∀ schema', schema.Thinned schema' →
        ∀ config, render schema' config = render schema config := by
  refine ⟨fun use definition found declared => ⟨fun shown => usage_eq_ok found declared,
    fun shown printed => (shows_usage found declared printed).plainText, ?_⟩, ?_⟩
  · intro names supplied defaults name
    refine DirectiveDefinition.valueOf_differing names (fun entry member => ?_)
      fun default here => ?_
    · obtain ⟨distinct, numbers⟩ := supplied entry member
      exact Value.sameAs_self entry.2 distinct numbers
    · obtain ⟨argument, member, same⟩ := DirectiveDefinition.default?_eq_some here
      obtain ⟨distinct, numbers⟩ := defaults argument member default same
      exact Value.sameAs_self default distinct numbers
  · intro schema' thinned config
    unfold render
    rw [fragments_thinned thinned]

/-- Declares a range, which may be supplied in another order and with another zero. -/
def limitDirective : DirectiveDefinition where
  name := "limit"
  description := none
  origin := .user
  arguments :=
    [⟨"range", none, .named "Range",
        some (.object [("low", .int 0), ("high", .float (.zero false))]), []⟩,
      ⟨"unit", none, .named "String", some (.string "second"), []⟩,
      ⟨"note", none, .named "String", none, []⟩]
  repeatable := false
  locations := [.schema, .fieldDefinition]

def limits : List (String × Value) :=
  [("note", .null), ("range", .object [("high", .float (.zero true)), ("low", .int 0)]),
    ("unit", .string "minute")]

def shownLimits : List (String × Value) :=
  [("note", .null), ("unit", .string "minute")]

/-- A schema that is limited as a whole and in one of its fields. -/
def limitedSchema (supplied : List (String × Value)) : Schema where
  description := none
  query := "Query"
  mutation := none
  subscription := none
  usages := [⟨"limit", supplied⟩]
  types := BuiltIn.scalars ++ [⟨"Range", none, .user, [], .scalar⟩, ⟨"Query", none, .user, [],
    .object [] [⟨"count", none, .named "Int", [], [⟨"limit", supplied⟩]⟩]⟩]
  directives := [limitDirective]

theorem render_without_defaults_limited :
    (∃ shown, usage (limitedSchema limits) ⟨"limit", limits⟩ = .ok shown ∧
        plainText shown.write =
          "&nbsp;@limit(note:&nbsp;null,&nbsp;unit:&nbsp;\"minute\")".toList) ∧
      (∀ name, Option.Rel (fun value value' => value.sameAs value' = true)
        (limitDirective.valueOf shownLimits name) (limitDirective.valueOf limits name)) ∧
      ∀ config,
        render (limitedSchema shownLimits) config = render (limitedSchema limits) config := by
  obtain ⟨each, whole⟩ := render_without_defaults (limitedSchema limits)
  obtain ⟨shows, read, values⟩ := each ⟨"limit", limits⟩ limitDirective rfl (by decide)
  have differing : limitDirective.differing limits = shownLimits := rfl
  rw [differing] at read values
  refine ⟨?_, ?_, ?_⟩
  · have printed := (shows _).mpr ⟨_, _, rfl, .cons rfl (.cons rfl .nil), rfl⟩
    exact ⟨_, printed, (read _ printed).trans (by decide)⟩
  · refine values (by decide) ?_ ?_
    · simp [limits, Value.HasDistinctNames, Value.FieldsHaveDistinctNames, Value.HasNumbersOnly,
        Value.numbers, Value.fieldNumbers, Binary64.zero, Binary64.isNaN]
    · simp [limitDirective, Value.HasDistinctNames, Value.FieldsHaveDistinctNames,
        Value.HasNumbersOnly, Value.numbers, Value.fieldNumbers, Binary64.zero, Binary64.isNaN]
  · have spared : (limitedSchema limits).Declares "limit" limits[1] := ⟨limitDirective, rfl, rfl⟩
    have thinned : List.Forall₂ (DirectiveUsage.Thinned (limitedSchema limits))
        [⟨"limit", limits⟩] [⟨"limit", shownLimits⟩] :=
      .cons ⟨rfl, .kept _ (.dropped spared (.kept _ .nil))⟩ .nil
    refine whole _ ⟨rfl, rfl, rfl, rfl, thinned, ?_, ?_⟩
    · refine List.rel_append (List.forall₂_same.mpr fun _ _ => .refl _) (.cons (.refl _) ?_)
      exact .cons ⟨rfl, rfl, rfl, .nil, .object [] (.cons ⟨rfl, rfl, rfl, .nil, thinned⟩ .nil)⟩ .nil
    · exact List.forall₂_same.mpr fun _ _ => .refl _

end GraphqlReference.Page
