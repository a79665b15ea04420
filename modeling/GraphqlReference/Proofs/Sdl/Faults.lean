import GraphqlReference.Proofs.Schema.Calls
import GraphqlReference.Proofs.Sdl.Merging
import GraphqlReference.Proofs.Sdl.Roots

namespace GraphqlReference.Sdl

/-!
What loading a document fails for. Clashes between its definitions come first, in their order, then
extensions that do not fit, and at last the lack of a root for queries.
-/

/-- Why a definition cannot stand behind others: its name is taken, or it is that of a built-in
scalar, which can be defined again as a scalar only. -/
def Definition.clash? (earlier : List Definition) : Definition → Option SchemaError
  | .type definition =>
    if definition.name ∈ (userTypes earlier).map TypeDefinition.name ∨
        (definition.name ∈ BuiltIn.scalars.map TypeDefinition.name ∧ definition.kind ≠ .scalar) then
      some (.duplicateType definition.name)
    else none
  | .directive definition =>
    if definition.name ∈ (userDirectives earlier).map DirectiveDefinition.name then
      some (.duplicateDirective definition.name)
    else none
  | .schema _ | .extension _ => none

/-- The first clash among definitions that stand behind others. -/
def firstClash? (earlier : List Definition) : List Definition → Option SchemaError
  | [] => none
  | definition :: rest =>
    definition.clash? earlier <|> firstClash? (earlier ++ [definition]) rest

/-- Why an extension does not fit the types of a document. -/
def misfit? (definitions : List Definition) (extension : TypeDefinition) : Option SchemaError :=
  match (BuiltIn.scalars ++ userTypes definitions).find? (·.name == extension.name) with
  | none => some (.unknownExtension extension.name)
  | some base =>
    if base.kind = extension.kind then none
    else some (.extensionKindMismatch extension.name base.kind extension.kind)

def missingRoot? (definitions : List Definition) : Option SchemaError :=
  if rootUnder (fun _ => true) definitions .query = none then some .missingQueryType else none

/-- What is wrong with a document, in the order in which it is looked for. -/
def firstFault? (definitions : List Definition) : Option SchemaError :=
  firstClash? [] definitions <|>
    (definitions.filterMap Definition.extension?).findSome? (misfit? definitions) <|>
      missingRoot? definitions

/-- A definition repeats a built-in one: of a scalar as a scalar, or of a directive. -/
def Definition.repeatsBuiltIn : Definition → Bool
  | .type definition =>
    definition.name ∈ BuiltIn.scalars.map TypeDefinition.name ∧ definition.kind = .scalar
  | .directive definition => definition.name ∈ BuiltIn.directives.map DirectiveDefinition.name
  | .schema _ | .extension _ => false

section

variable {earlier definitions : List Definition} {definition : Definition} {fault : SchemaError}
  {builder : SchemaBuilder}

theorem scalars_builtIn :
    ∀ scalar ∈ BuiltIn.scalars, scalar.origin = .builtIn ∧ scalar.kind = .scalar := by
  decide

theorem directives_builtIn : ∀ directive ∈ BuiltIn.directives, directive.origin = .builtIn := by
  decide

theorem isTaken_type {written : TypeDefinition} (user : ∀ definition ∈ earlier, definition.IsUser) :
    (written.name ∈ (userTypes earlier).map TypeDefinition.name ∨
        (written.name ∈ BuiltIn.scalars.map TypeDefinition.name ∧ written.kind ≠ .scalar)) ↔
      ∃ existing, (declared earlier).type? written.name = some existing ∧
        ¬ (existing.origin = .builtIn ∧ existing.kind = written.kind) := by
  rw [type?_declared_eq, List.find?_append]
  cases found : BuiltIn.scalars.find? (·.name == written.name) with
  | some existing =>
      obtain ⟨member, named⟩ := find?_named TypeDefinition.name found
      obtain ⟨origin, kind⟩ := scalars_builtIn existing member
      have inScalars : written.name ∈ BuiltIn.scalars.map TypeDefinition.name :=
        named ▸ List.mem_map_of_mem member
      have notOwn : written.name ∉ (userTypes earlier).map TypeDefinition.name := by
        intro own
        obtain ⟨other, inside, same⟩ := List.mem_map.mp own
        have apart := of_decide_eq_true (List.mem_filter.mp inside).2
        exact apart (same ▸ inScalars)
      simp [inScalars, notOwn, origin, kind, eq_comm]
  | none =>
      have notScalar : written.name ∉ BuiltIn.scalars.map TypeDefinition.name :=
        find?_eq_none_iff.mp found
      cases own : (userTypes earlier).find? (·.name == written.name) with
      | some existing =>
          obtain ⟨member, named⟩ := find?_named TypeDefinition.name own
          have origin := origin_userTypes user existing member
          have taken : written.name ∈ (userTypes earlier).map TypeDefinition.name :=
            named ▸ List.mem_map_of_mem member
          simp [taken, origin]
      | none =>
          have free : written.name ∉ (userTypes earlier).map TypeDefinition.name :=
            find?_eq_none_iff.mp own
          simp [free, notScalar]

theorem isTaken_directive {written : DirectiveDefinition}
    (user : ∀ definition ∈ earlier, definition.IsUser) :
    written.name ∈ (userDirectives earlier).map DirectiveDefinition.name ↔
      ∃ existing, (declared earlier).directive? written.name = some existing ∧
        existing.origin = .user := by
  rw [directive?_declared_eq, List.find?_append]
  cases found : BuiltIn.directives.find? (·.name == written.name) with
  | some existing =>
      obtain ⟨member, named⟩ := find?_named DirectiveDefinition.name found
      have origin := directives_builtIn existing member
      have notOwn : written.name ∉ (userDirectives earlier).map DirectiveDefinition.name := by
        intro own
        obtain ⟨other, inside, same⟩ := List.mem_map.mp own
        exact (mem_userDirectives.mp inside).2 (same ▸ named ▸ List.mem_map_of_mem member)
      simp [notOwn, origin]
  | none =>
      cases own : (userDirectives earlier).find? (·.name == written.name) with
      | some existing =>
          obtain ⟨member, named⟩ := find?_named DirectiveDefinition.name own
          have origin : existing.origin = .user := user _ (mem_userDirectives.mp member).1
          have taken : written.name ∈ (userDirectives earlier).map DirectiveDefinition.name :=
            named ▸ List.mem_map_of_mem member
          simp [taken, origin]
      | none =>
          have free : written.name ∉ (userDirectives earlier).map DirectiveDefinition.name :=
            find?_eq_none_iff.mp own
          simp [free]

/-- A definition is refused just where it clashes with what has been declared before. -/
theorem failsFor_declare (user : ∀ definition ∈ earlier, definition.IsUser)
    (definition : Definition) :
    FailsFor (declare (declared earlier) definition) (definition.clash? earlier) := by
  intro fault
  cases definition with
  | schema | extension => simp [declare, Definition.clash?]
  | type written =>
      rw [declare, SchemaBuilder.addType_eq_error, ← isTaken_type user, Definition.clash?,
        Option.ite_none_right_eq_some, Option.some.injEq, and_comm, eq_comm]
  | directive written =>
      rw [declare, SchemaBuilder.addDirective_eq_error, ← isTaken_directive user,
        Definition.clash?, Option.ite_none_right_eq_some, Option.some.injEq, and_comm, eq_comm]

theorem failsFor_foldlM_declare (user : ∀ definition ∈ earlier ++ definitions, definition.IsUser) :
    FailsFor (definitions.foldlM declare (declared earlier)) (firstClash? earlier definitions) := by
  induction definitions generalizing earlier with
  | nil => exact FailsFor.ok_iff.mpr rfl
  | cons definition rest ih =>
      have userEarlier := (List.forall_mem_append.mp user).1
      rw [List.append_cons] at user
      refine (failsFor_declare userEarlier definition).bind fun next stepped => ?_
      rw [declare_user userEarlier stepped]
      exact ih user

/-- Extensions that came before do not change whether an extension fits. -/
theorem failsFor_extendType (before : List TypeDefinition) (extension : TypeDefinition) :
    FailsFor (((declared definitions).extendTypes before).extendType extension)
      (misfit? definitions extension) := by
  unfold SchemaBuilder.extendType misfit?
  rw [SchemaBuilder.type?_extendTypes, type?_declared_eq]
  cases (BuiltIn.scalars ++ userTypes definitions).find? (·.name == extension.name) with
  | none => exact FailsFor.error_iff.mpr rfl
  | some base =>
      dsimp only [Option.map_some]
      rw [TypeDefinition.kind_extendedBy]
      split
      · exact FailsFor.ok_iff.mpr rfl
      · exact FailsFor.error_iff.mpr rfl

theorem failsFor_foldlM_extendType (before extensions : List TypeDefinition) :
    FailsFor
      (extensions.foldlM SchemaBuilder.extendType ((declared definitions).extendTypes before))
      (extensions.findSome? (misfit? definitions)) := by
  induction extensions generalizing before with
  | nil => exact FailsFor.ok_iff.mpr rfl
  | cons extension rest ih =>
      have split : (extension :: rest).findSome? (misfit? definitions) =
          (misfit? definitions extension <|> rest.findSome? (misfit? definitions)) := by
        rw [List.findSome?_cons]
        cases misfit? definitions extension <;> rfl
      rw [split]
      refine (failsFor_extendType before extension).bind fun next extended => ?_
      obtain ⟨_, rfl⟩ := SchemaBuilder.extendType_eq_ok.mp extended
      rw [← SchemaBuilder.extendTypes_append]
      exact ih (before ++ [extension])

theorem failsFor_collect (user : ∀ definition ∈ definitions, definition.IsUser) :
    FailsFor (collect definitions) (firstClash? [] definitions <|>
      (definitions.filterMap Definition.extension?).findSome? (misfit? definitions)) := by
  have behindNothing : ∀ definition ∈ [] ++ definitions, definition.IsUser := user
  have clashes : FailsFor (definitions.foldlM declare .new) (firstClash? [] definitions) :=
    failsFor_foldlM_declare behindNothing
  refine clashes.bind fun base folded => ?_
  have unextended : (declared definitions).extendTypes [] = declared definitions :=
    SchemaBuilder.extendTypes_nil
  rw [foldlM_declare_user user folded, ← unextended]
  exact failsFor_foldlM_extendType [] _

theorem failsFor_build (known : KnowsRoots definitions builder) :
    FailsFor builder.build (missingRoot? definitions) := by
  unfold SchemaBuilder.build missingRoot?
  rw [known.root? .query]
  cases rootUnder (fun _ => true) definitions .query with
  | none => exact FailsFor.error_iff.mpr rfl
  | some query => exact FailsFor.ok_iff.mpr rfl

theorem failsFor_load (user : ∀ definition ∈ definitions, definition.IsUser) :
    FailsFor (load definitions) (firstFault? definitions) := by
  have told := (failsFor_collect user).bind fun builder collected =>
    failsFor_build (knowsRoots_collect collected)
  unfold firstFault?
  cases clash : firstClash? [] definitions <;> rwa [clash] at told

/-- What is built in may be defined again at any point, which changes nothing. -/
theorem declare_repeated (repeats : definition.repeatsBuiltIn = true) :
    declare (declared earlier) definition = .ok (declared earlier) := by
  cases definition with
  | schema | extension => cases repeats
  | type written =>
      obtain ⟨member, scalar⟩ := of_decide_eq_true repeats
      cases known : SchemaBuilder.new.type? written.name with
      | none => exact absurd member (find?_eq_none_iff.mp (type?_new _ ▸ known))
      | some existing =>
          have found : (declared earlier).type? written.name = some existing :=
            type?_declared_known known
          obtain ⟨inside, _⟩ := find?_named TypeDefinition.name (type?_new _ ▸ known)
          obtain ⟨origin, kind⟩ := scalars_builtIn existing inside
          refine (SchemaBuilder.addType_known found).mpr ⟨fun other same => ?_, rfl⟩
          obtain rfl := Option.some.inj (found.symm.trans same)
          exact ⟨beq_iff_eq.mpr origin, kind.trans scalar.symm⟩
  | directive written =>
      have member := of_decide_eq_true repeats
      cases known : SchemaBuilder.new.directive? written.name with
      | none => exact absurd member (find?_eq_none_iff.mp (directive?_new _ ▸ known))
      | some existing =>
          have found : (declared earlier).directive? written.name = some existing :=
            directive?_declared_known known
          obtain ⟨inside, _⟩ :=
            find?_named DirectiveDefinition.name (directive?_new _ ▸ known)
          refine (SchemaBuilder.addDirective_known found).mpr ⟨fun other same => ?_, rfl⟩
          obtain rfl := Option.some.inj (found.symm.trans same)
          exact beq_iff_eq.mpr (directives_builtIn existing inside)

/-- All definitions of a document but those that repeat built-in ones. -/
def withoutRepetitions (definitions : List Definition) : List Definition :=
  definitions.filter fun definition => !definition.repeatsBuiltIn

theorem foldlM_declare_withoutRepetitions
    (user : ∀ definition ∈ earlier ++ definitions, definition.IsUser) :
    (withoutRepetitions definitions).foldlM declare (declared earlier) =
      definitions.foldlM declare (declared earlier) := by
  induction definitions generalizing earlier with
  | nil => rfl
  | cons definition rest ih =>
      obtain ⟨userEarlier, userHere⟩ := List.forall_mem_append.mp user
      have userRest := (List.forall_mem_cons.mp userHere).2
      unfold withoutRepetitions
      cases repeats : definition.repeatsBuiltIn with
      | true =>
          rw [List.filter_cons_of_neg (by simp [repeats]), List.foldlM_cons,
            declare_repeated repeats]
          exact ih (List.forall_mem_append.mpr ⟨userEarlier, userRest⟩)
      | false =>
          rw [List.filter_cons_of_pos (by simp [repeats]), List.foldlM_cons, List.foldlM_cons]
          rw [List.append_cons] at user
          cases stepped : declare (declared earlier) definition with
          | error fault => rfl
          | ok next =>
              obtain rfl := declare_user userEarlier stepped
              exact ih user

theorem load_withoutRepetitions (user : ∀ definition ∈ definitions, definition.IsUser) :
    load (withoutRepetitions definitions) = load definitions := by
  have sameExtensions : (withoutRepetitions definitions).filterMap Definition.extension? =
      definitions.filterMap Definition.extension? := by
    rw [withoutRepetitions, List.filterMap_filter]
    refine List.filterMap_congr fun definition _ => ?_
    cases definition <;> simp [Definition.repeatsBuiltIn, Definition.extension?]
  have behindNothing : ∀ definition ∈ [] ++ definitions, definition.IsUser := user
  have sameDeclared : (withoutRepetitions definitions).foldlM declare .new =
      definitions.foldlM declare .new :=
    foldlM_declare_withoutRepetitions behindNothing
  unfold load collect
  rw [sameExtensions, sameDeclared]

end

/-- Loading fails for the first definition that clashes with one before it, else for the first
extension that does not fit the types of the document, else for the lack of a root for queries, and
for nothing else. Definitions that repeat built-in ones make no difference. -/
theorem load_faults {definitions : List Definition}
    (user : ∀ definition ∈ definitions, definition.IsUser) :
    (∀ fault, load definitions = .error fault ↔ firstFault? definitions = some fault) ∧
      load (withoutRepetitions definitions) = load definitions :=
  ⟨failsFor_load user, load_withoutRepetitions user⟩

/-- A repeated scalar, which is no fault, an extension of a missing type, and two clashes. -/
def faultyDefinitions : List Definition :=
  [ .type ⟨"ID", none, .user, [], .scalar⟩
  , .extension ⟨"Missing", none, .user, [], .scalar⟩
  , .type ⟨"Query", none, .user, [], .object [] []⟩
  , .type ⟨"Int", none, .user, [], .enum []⟩
  , .type ⟨"Query", none, .user, [], .object [] []⟩ ]

/-- A type that is extended as a type of another kind. -/
def misfittingDefinitions : List Definition :=
  [ .extension ⟨"Query", none, .user, [], .union ["ID"]⟩
  , .type ⟨"Query", none, .user, [], .object [] []⟩ ]

/-- The fault of an extension comes to light where nothing clashes. -/
theorem load_faults_clash :
    ((∀ definition ∈ faultyDefinitions, definition.IsUser) ∧
      load faultyDefinitions = .error (.duplicateType "Int") ∧
      load (withoutRepetitions faultyDefinitions) = .error (.duplicateType "Int")) ∧
    ((∀ definition ∈ faultyDefinitions.take 3, definition.IsUser) ∧
      load (faultyDefinitions.take 3) = .error (.unknownExtension "Missing")) ∧
    (∀ definition ∈ misfittingDefinitions, definition.IsUser) ∧
      load misfittingDefinitions =
        .error (.extensionKindMismatch "Query" .object .union) := by
  have user : ∀ definition ∈ faultyDefinitions, definition.IsUser := by
    simp [faultyDefinitions, Definition.IsUser]
  have userUnknown : ∀ definition ∈ faultyDefinitions.take 3, definition.IsUser :=
    fun definition member => user definition (List.mem_of_mem_take member)
  have userMisfit : ∀ definition ∈ misfittingDefinitions, definition.IsUser := by
    simp [misfittingDefinitions, Definition.IsUser]
  obtain ⟨faults, unchanged⟩ := load_faults user
  have clash := (faults (.duplicateType "Int")).mpr rfl
  have unknown := ((load_faults userUnknown).1 (.unknownExtension "Missing")).mpr rfl
  have misfit :=
    ((load_faults userMisfit).1 (.extensionKindMismatch "Query" .object .union)).mpr rfl
  exact ⟨⟨user, clash, unchanged.trans clash⟩, ⟨userUnknown, unknown⟩, userMisfit, misfit⟩

end GraphqlReference.Sdl
