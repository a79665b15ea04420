import GraphqlReference.Page.Link

namespace GraphqlReference.Page

/-!
All interfaces that a list of declared ones brings with it. An interface comes behind the
interfaces it declares itself, and each is named once.
-/

open Html

/-- What remains to be done in a walk along declared interfaces: to enter a name, or to list a name
whose own interfaces have been walked. -/
inductive Visit where
  | enter (name : String)
  | leave (name : String)
  deriving DecidableEq, Repr

def isUnseen (seen : List String) (definition : TypeDefinition) : Bool :=
  !seen.contains definition.name

/-- The number of declared types whose names have not been seen. -/
def unseenCount (types : List TypeDefinition) (seen : List String) : Nat :=
  types.countP (isUnseen seen)

theorem isUnseen_cons (name : String) (seen : List String) (definition : TypeDefinition) :
    isUnseen (name :: seen) definition = (definition.name != name && isUnseen seen definition) := by
  simp only [isUnseen, List.contains_cons, Bool.not_or, bne]

theorem unseenCount_cons_le (types : List TypeDefinition) (seen : List String) (name : String) :
    unseenCount types (name :: seen) ≤ unseenCount types seen :=
  List.countP_mono_left fun definition _ unseen => by
    rw [isUnseen_cons, Bool.and_eq_true] at unseen
    exact unseen.2

/-- Seeing the name of a declared type for the first time leaves fewer to be seen. -/
theorem unseenCount_cons_lt {types : List TypeDefinition} {seen : List String} {name : String}
    {definition : TypeDefinition} (found : types.find? (·.name == name) = some definition)
    (unseen : ¬ seen.contains name = true) :
    unseenCount types (name :: seen) < unseenCount types seen := by
  have matching : (definition.name == name) = true :=
    List.find?_some (p := fun candidate : TypeDefinition => candidate.name == name) found
  have named : definition.name = name := beq_iff_eq.mp matching
  have member : definition ∈ types := List.mem_of_find?_eq_some found
  obtain ⟨before, after, rfl⟩ := List.append_of_mem member
  have earlier := unseenCount_cons_le before seen name
  have later := unseenCount_cons_le after seen name
  have seenNow : isUnseen (name :: seen) definition = false := by
    rw [isUnseen_cons, named, bne_self_eq_false, Bool.false_and]
  have unseenBefore : isUnseen seen definition = true := by
    rw [isUnseen, named, eq_false_of_ne_true unseen, Bool.not_false]
  unfold unseenCount at *
  rw [List.countP_append, List.countP_append, List.countP_cons_of_pos unseenBefore,
    List.countP_cons_of_neg (by rw [seenNow]; exact Bool.false_ne_true)]
  omega

/-- The names listed by a walk, given the names that have been seen. A name is marked on entry, so
cycles end. -/
def walk (schema : Schema) : List Visit → List String → Except RenderError (List String)
  | [], _ => .ok []
  | .leave name :: rest, seen => do
    let listed ← walk schema rest seen
    .ok (name :: listed)
  | .enter name :: rest, seen =>
    if seen.contains name then walk schema rest seen
    else
      match found : schema.type? name with
      | none => .error (.unknownType name)
      | some definition =>
        walk schema (definition.interfaces.map .enter ++ .leave name :: rest) (name :: seen)
termination_by visits seen => (unseenCount schema.types seen, visits.length)
decreasing_by
  · exact Prod.Lex.right _ (by simp)
  · exact Prod.Lex.right _ (by simp)
  · exact Prod.Lex.left _ _ (unseenCount_cons_lt found (by assumption))

/-- The names of all interfaces that the given ones bring with them. -/
def flattenNames (schema : Schema) (interfaces : List String) : Except RenderError (List String) :=
  walk schema (interfaces.map .enter) []

/-- Links to all interfaces that the given ones bring with them. -/
def flattenLinks (schema : Schema) (interfaces : List String) :
    Except RenderError (List Fragment) := do
  let names ← flattenNames schema interfaces
  names.mapM (namedTypeLink schema "typename")

end GraphqlReference.Page
