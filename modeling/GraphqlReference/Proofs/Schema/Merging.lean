import GraphqlReference.Proofs.Schema.Extending

namespace GraphqlReference

namespace TypeBody

def interfaces : TypeBody → List String
  | object interfaces _ | interface interfaces _ => interfaces
  | _ => []

def fields : TypeBody → List Field
  | object _ fields | interface _ fields => fields
  | _ => []

def inputFields : TypeBody → List Argument
  | inputObject fields => fields
  | _ => []

def members : TypeBody → List String
  | union members => members
  | _ => []

def items : TypeBody → List EnumItem
  | enum items => items
  | _ => []

/-- A body of its kind with each of its lists behind which the same lists of others follow. -/
def followedBy (body : TypeBody) (others : List TypeBody) : TypeBody :=
  .ofMembers body.kind (body.interfaces ++ others.flatMap interfaces)
    (body.fields ++ others.flatMap fields) (body.inputFields ++ others.flatMap inputFields)
    (body.members ++ others.flatMap members) (body.items ++ others.flatMap items)

variable {body : TypeBody}

theorem followedBy_nil : body.followedBy [] = body := by
  cases body <;> simp [followedBy, ofMembers, kind, interfaces, fields, inputFields, members, items]

theorem followedBy_extend {more : TypeBody} (fits : more.kind = body.kind)
    (others : List TypeBody) :
    (body.extend more).followedBy others = body.followedBy (more :: others) := by
  cases body <;> cases more <;> cases fits <;>
    simp [followedBy, ofMembers, extend, kind, interfaces, fields, inputFields, members, items]

theorem foldl_extend {others : List TypeBody} (fit : ∀ other ∈ others, other.kind = body.kind) :
    others.foldl extend body = body.followedBy others := by
  induction others generalizing body with
  | nil => exact followedBy_nil.symm
  | cons first rest ih =>
      obtain ⟨fitsFirst, fitRest⟩ := List.forall_mem_cons.mp fit
      rw [List.foldl_cons, ih, followedBy_extend fitsFirst]
      simpa only [kind_extend] using fitRest

end TypeBody

namespace TypeDefinition

/-- A type with its usages and its body followed by those of the extensions of its name. -/
def mergedWith (extensions : List TypeDefinition) (definition : TypeDefinition) : TypeDefinition :=
  let own := extensions.filter (·.name = definition.name)
  { definition with
    usages := definition.usages ++ own.flatMap (·.usages)
    body := definition.body.followedBy (own.map (·.body)) }

variable {definition : TypeDefinition}

theorem foldl_extendWith (extensions : List TypeDefinition) :
    extensions.foldl extendWith definition =
      { definition with
        usages := definition.usages ++ extensions.flatMap (·.usages)
        body := (extensions.map (·.body)).foldl TypeBody.extend definition.body } := by
  induction extensions generalizing definition with
  | nil => simp
  | cons first rest ih =>
      rw [List.foldl_cons, ih, extendWith]
      simp

/-- Extensions merge into the type of their name, if they are of its kind. -/
theorem extendedBy_eq_mergedWith {extensions : List TypeDefinition}
    (fit : ∀ extension ∈ extensions, extension.name = definition.name →
      extension.kind = definition.kind) :
    definition.extendedBy extensions definition.name = definition.mergedWith extensions := by
  have bodies : ∀ body ∈ (extensions.filter (·.name = definition.name)).map (·.body),
      body.kind = definition.body.kind := by
    intro body member
    obtain ⟨extension, inside, rfl⟩ := List.mem_map.mp member
    obtain ⟨among, named⟩ := List.mem_filter.mp inside
    exact fit extension among (of_decide_eq_true named)
  rw [extendedBy, foldl_extendWith, TypeBody.foldl_extend bodies, mergedWith]

/-- A scalar has nothing that could be merged but its usages. -/
theorem mergedWith_scalar (extensions : List TypeDefinition) (scalar : definition.body = .scalar) :
    definition.mergedWith extensions =
      { definition with
        usages := definition.usages ++
          (extensions.filter (·.name = definition.name)).flatMap (·.usages) } := by
  simp [mergedWith, scalar, TypeBody.followedBy, TypeBody.kind, TypeBody.ofMembers]

end TypeDefinition

end GraphqlReference
