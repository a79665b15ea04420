import GraphqlReference.Proofs.Value.Equality

namespace GraphqlReference.DirectiveDefinition

/-- The value of an argument for which none is supplied. -/
def default? (definition : DirectiveDefinition) (name : String) : Option Value :=
  (definition.argument? name).bind Argument.default

/-- A supplied value is no other than the declared one. -/
def isDefault (definition : DirectiveDefinition) (name : String) (value : Value) : Bool :=
  (definition.default? name).any (·.sameAs value)

/-- The supplied arguments whose values are not the declared ones. -/
def differing (definition : DirectiveDefinition) (supplied : List (String × Value)) :
    List (String × Value) :=
  supplied.filter fun entry => !definition.isDefault entry.1 entry.2

/-- The value of an argument where these are supplied. -/
def valueOf (definition : DirectiveDefinition) (supplied : List (String × Value))
    (name : String) : Option Value :=
  supplied.lookup name <|> definition.default? name

variable {definition : DirectiveDefinition} {supplied : List (String × Value)} {name : String}

theorem default?_eq_some {default : Value} (declared : definition.default? name = some default) :
    ∃ argument ∈ definition.arguments, argument.default = some default := by
  obtain ⟨argument, found, same⟩ := Option.bind_eq_some_iff.mp declared
  exact ⟨argument, (argument?_eq_some found).1, same⟩

theorem isDefault_iff {value : Value} : definition.isDefault name value = true ↔
    ∃ default, definition.default? name = some default ∧ default.sameAs value = true := by
  rw [isDefault, Option.any_eq_true]

/-- Where all values equal themselves, an argument has the same value whether all that are supplied
are taken or only those that differ from what is declared. -/
theorem valueOf_differing (names : (supplied.map Prod.fst).Nodup)
    (suppliedSame : ∀ entry ∈ supplied, entry.2.sameAs entry.2 = true)
    (declaredSame : ∀ default ∈ definition.default? name, default.sameAs default = true) :
    Option.Rel (fun value value' => value.sameAs value' = true)
      (definition.valueOf (definition.differing supplied) name)
      (definition.valueOf supplied name) := by
  unfold valueOf differing
  rw [lookup_filter names]
  cases found : supplied.lookup name with
  | none =>
      cases declared : definition.default? name with
      | none => exact .none
      | some default => exact .some (declaredSame default declared)
  | some value =>
      obtain ⟨before, after, rfl, _⟩ := List.lookup_eq_some_iff.mp found
      have itself : value.sameAs value = true := suppliedSame (name, value) (by simp)
      rw [Option.filter_some]
      cases same : definition.isDefault name value with
      | false => exact .some itself
      | true =>
          obtain ⟨default, declared, equal⟩ := isDefault_iff.mp same
          rw [declared]
          exact .some equal

end GraphqlReference.DirectiveDefinition
