import GraphqlReference.Proofs.Schema.Lookup
import GraphqlReference.Proofs.Schema.Obtained
import GraphqlReference.Proofs.Sdl.Declaring

namespace GraphqlReference

/-!
What a builder holds at every point of its use: the built-in declarations in front, and behind them
the declarations of new names, as they were made and in the order of the calls.
-/

section

variable {α : Type} {name : α → String}

/-- Whether one of the items bears the name of a further one. -/
def isTaken (name : α → String) (items : List α) (item : α) : Bool :=
  (items.find? (name · == name item)).isSome

/-- The items whose names are neither taken nor borne by an item in front of them. -/
def firstNamed (name : α → String) (taken : List α) : List α → List α
  | [] => []
  | item :: items =>
    if isTaken name taken item then firstNamed name taken items
    else item :: firstNamed name (taken ++ [item]) items

theorem firstNamed_concat (taken items : List α) (item : α) :
    firstNamed name taken (items ++ [item]) = firstNamed name taken items ++
      if isTaken name (taken ++ firstNamed name taken items) item then [] else [item] := by
  induction items generalizing taken with
  | nil =>
      simp only [List.nil_append, firstNamed, List.append_nil]
  | cons first items ih =>
      simp only [List.cons_append, firstNamed]
      split
      · exact ih taken
      · rw [ih, List.cons_append, List.append_assoc, List.singleton_append]

end

/-- What can be asked of a builder. -/
inductive BuilderStep where
  | call (call : BuilderCall)
  | build

namespace BuilderStep

@[simp] def type? : BuilderStep → Option TypeDefinition
  | .call (.type definition) => some definition
  | _ => none

@[simp] def directive? : BuilderStep → Option DirectiveDefinition
  | .call (.directive definition) => some definition
  | _ => none

def act : BuilderStep → Building Unit
  | .call made => made.act
  | .build => do
    match (← get).build with
    | .ok _ => pure ()
    | .error fault => throw fault

end BuilderStep

namespace SchemaBuilder

def afterStep (builder : SchemaBuilder) (step : BuilderStep) : SchemaBuilder :=
  builder.leftBy step.act

def afterSteps (steps : List BuilderStep) : SchemaBuilder :=
  steps.foldl afterStep .new

section

variable {builder next : SchemaBuilder} {steps : List BuilderStep}

theorem act_build : BuilderStep.act .build builder =
    match builder.build with
    | .ok _ => .ok () builder
    | .error fault => .error fault builder := by
  change (BuilderStep.act .build).run builder = _
  rw [BuilderStep.act, EStateM.run_bind, EStateM.run_get]
  dsimp only
  cases builder.build <;> rfl

/-- A step that fails has changed nothing until then. -/
theorem eq_of_act_failed {step : BuilderStep} {fault : SchemaError} {left : SchemaBuilder}
    (failed : step.act builder = .error fault left) : left = builder := by
  cases step with
  | build =>
      rw [act_build] at failed
      split at failed <;> cases failed
      rfl
  | call call =>
      cases call with
      | description | root | explicitRoots | usage => cases failed
      | type definition =>
          rw [BuilderStep.act, BuilderCall.act] at failed
          cases found : builder.type? definition.name with
          | none =>
              rw [declareType_new found] at failed
              cases failed
          | some existing =>
              rw [declareType_known found] at failed
              split at failed <;> cases failed
              rfl
      | directive definition =>
          rw [BuilderStep.act, BuilderCall.act] at failed
          cases found : builder.directive? definition.name with
          | none =>
              rw [declareDirective_new found] at failed
              cases failed
          | some existing =>
              rw [declareDirective_known found] at failed
              split at failed <;> cases failed
              rfl

theorem afterStep_build : builder.afterStep .build = builder := by
  rw [afterStep, leftBy, act_build]
  cases builder.build <;> rfl

theorem addType_eq_error {definition : TypeDefinition} {fault : SchemaError} :
    builder.addType definition = .error fault ↔
      fault = .duplicateType definition.name ∧ ∃ existing,
        builder.type? definition.name = some existing ∧
          ¬ (existing.origin = .builtIn ∧ existing.kind = definition.kind) := by
  cases found : builder.type? definition.name with
  | none => simp [addType_new found]
  | some existing =>
      rw [addType_found found]
      by_cases again : existing.origin = .builtIn ∧ existing.kind = definition.kind
      · simp [TypeDefinition.isBuiltIn, again]
      · have refused : (existing.isBuiltIn && existing.kind == definition.kind) = false := by
          simpa [TypeDefinition.isBuiltIn] using again
        simp only [refused, Option.some.injEq, exists_eq_left', again]
        simpa using eq_comm

theorem addDirective_eq_error {definition : DirectiveDefinition} {fault : SchemaError} :
    builder.addDirective definition = .error fault ↔
      fault = .duplicateDirective definition.name ∧ ∃ existing,
        builder.directive? definition.name = some existing ∧ existing.origin = .user := by
  cases found : builder.directive? definition.name with
  | none => simp [addDirective_new found]
  | some existing =>
      rw [addDirective_found found, DirectiveDefinition.isBuiltIn]
      cases origin : existing.origin <;> simp [origin, eq_comm (b := fault)]

/-- A new name goes to the end; a step changes nothing else about the declared types. -/
theorem types_afterStep {items : List TypeDefinition}
    (held : builder.types = keyed TypeDefinition.name items) (step : BuilderStep) :
    (builder.afterStep step).types = keyed TypeDefinition.name
      (items ++ step.type?.toList.filter fun definition =>
        !isTaken TypeDefinition.name items definition) := by
  cases step with
  | build => simpa [afterStep_build] using held
  | call call =>
      cases call with
      | description | root | explicitRoots | usage =>
          exact held.trans (congrArg (keyed _) (List.append_nil items).symm)
      | directive definition =>
          have kept : (builder.leftBy (declareDirective definition)).types = builder.types := by
            cases found : builder.directive? definition.name with
            | none => rw [leftBy_directive_new found]
            | some existing => rw [leftBy_directive_known found]
          exact (kept.trans held).trans (congrArg (keyed _) (List.append_nil items).symm)
      | type definition =>
          have looked : builder.type? definition.name =
              items.find? (·.name == definition.name) := by
            rw [type?, held, lookup_keyed]
          rw [afterStep, BuilderStep.act, BuilderCall.act]
          cases found : builder.type? definition.name with
          | none =>
              have free : isTaken TypeDefinition.name items definition = false :=
                congrArg Option.isSome (looked.symm.trans found)
              simp [leftBy_type_new found, held, free, keyed]
          | some existing =>
              have taken : isTaken TypeDefinition.name items definition = true :=
                congrArg Option.isSome (looked.symm.trans found)
              simp [leftBy_type_known found, held, taken]

theorem directives_afterStep {items : List DirectiveDefinition}
    (held : builder.directives = keyed DirectiveDefinition.name items) (step : BuilderStep) :
    (builder.afterStep step).directives = keyed DirectiveDefinition.name (items ++
      step.directive?.toList.filter fun definition =>
        !isTaken DirectiveDefinition.name items definition) := by
  cases step with
  | build => simpa [afterStep_build] using held
  | call call =>
      cases call with
      | description | root | explicitRoots | usage =>
          exact held.trans (congrArg (keyed _) (List.append_nil items).symm)
      | type definition =>
          have kept : (builder.leftBy (declareType definition)).directives =
              builder.directives := by
            cases found : builder.type? definition.name with
            | none => rw [leftBy_type_new found]
            | some existing => rw [leftBy_type_known found]
          exact (kept.trans held).trans (congrArg (keyed _) (List.append_nil items).symm)
      | directive definition =>
          have looked : builder.directive? definition.name =
              items.find? (·.name == definition.name) := by
            rw [directive?, held, lookup_keyed]
          rw [afterStep, BuilderStep.act, BuilderCall.act]
          cases found : builder.directive? definition.name with
          | none =>
              have free : isTaken DirectiveDefinition.name items definition = false :=
                congrArg Option.isSome (looked.symm.trans found)
              simp [leftBy_directive_new found, held, free, keyed]
          | some existing =>
              have taken : isTaken DirectiveDefinition.name items definition = true :=
                congrArg Option.isSome (looked.symm.trans found)
              simp [leftBy_directive_known found, held, taken]

/-- Steps that each put their new names behind what there is leave the first of every name. -/
theorem eq_firstNamed {α : Type} {name : α → String} {base : List α}
    (held : SchemaBuilder → List (String × α)) (start : held .new = keyed name base)
    {declared? : BuilderStep → Option α}
    (stepped : ∀ builder items step, held builder = keyed name items →
      held (afterStep builder step) = keyed name (items ++
        (declared? step).toList.filter fun item => !isTaken name items item))
    (steps : List BuilderStep) :
    held (afterSteps steps) =
      keyed name (base ++ firstNamed name base (steps.filterMap declared?)) := by
  induction steps using List.reverseRec with
  | nil => exact start.trans (congrArg (keyed name) (List.append_nil base).symm)
  | append_singleton earlier last ih =>
      have split : afterSteps (earlier ++ [last]) = (afterSteps earlier).afterStep last := by
        simp [afterSteps]
      rw [split, stepped _ _ last ih, List.filterMap_append, List.append_assoc]
      cases declaring : declared? last with
      | none => simp [declaring]
      | some item =>
          rw [List.filterMap_cons_some declaring, List.filterMap_nil, firstNamed_concat]
          cases taken : isTaken name (base ++ firstNamed name base
            (earlier.filterMap declared?)) item <;> simp [taken]

theorem isDistinct_afterSteps (steps : List BuilderStep) : (afterSteps steps).IsDistinct := by
  refine List.foldlRecOn steps afterStep isDistinct_new fun builder distinct step _ => ?_
  cases step with
  | build => exact afterStep_build.symm ▸ distinct
  | call call => exact distinct.leftBy call

/-- Under a name a schema has what its builder has under this name. -/
theorem type?_build (distinct : builder.IsDistinct) {schema : Schema}
    (built : builder.build = .ok schema) (name : String) :
    schema.type? name = builder.type? name ∧
      schema.directive? name = builder.directive? name := by
  unfold build at built
  split at built
  · cases built
  · obtain ⟨⟩ := built
    exact ⟨(distinct.types.lookup_eq name).symm, (distinct.directives.lookup_eq name).symm⟩

/-- What a builder holds after steps, and how it answers a declaration then. -/
structure Holds (steps : List BuilderStep) (builder : SchemaBuilder) : Prop where
  types : builder.types = keyed TypeDefinition.name (BuiltIn.scalars ++
    firstNamed TypeDefinition.name BuiltIn.scalars (steps.filterMap BuilderStep.type?))
  directives : builder.directives = keyed DirectiveDefinition.name (BuiltIn.directives ++
    firstNamed DirectiveDefinition.name BuiltIn.directives
      (steps.filterMap BuilderStep.directive?))
  distinct : builder.IsDistinct
  typeUnderName : ∀ name definition, builder.type? name = some definition ↔
    (name, definition) ∈ builder.types ∧ definition.name = name
  directiveUnderName : ∀ name definition, builder.directive? name = some definition ↔
    (name, definition) ∈ builder.directives ∧ definition.name = name
  built : ∀ schema name, builder.build = .ok schema →
    schema.type? name = builder.type? name ∧ schema.directive? name = builder.directive? name
  typeRefused : ∀ definition fault, builder.addType definition = .error fault ↔
    fault = .duplicateType definition.name ∧ ∃ existing,
      builder.type? definition.name = some existing ∧
        ¬ (existing.origin = .builtIn ∧ existing.kind = definition.kind)
  directiveRefused : ∀ definition fault, builder.addDirective definition = .error fault ↔
    fault = .duplicateDirective definition.name ∧ ∃ existing,
      builder.directive? definition.name = some existing ∧ existing.origin = .user
  failed : ∀ step fault left, BuilderStep.act step builder = .error fault left → left = builder
  typeAgain : ∀ definition existing next, builder.type? definition.name = some existing →
    builder.addType definition = .ok next → next = builder
  directiveAgain : ∀ definition existing next,
    builder.directive? definition.name = some existing →
      builder.addDirective definition = .ok next → next = builder

/-- Any steps, also with failing ones among them. -/
theorem holds_afterSteps (steps : List BuilderStep) : Holds steps (afterSteps steps) where
  types := eq_firstNamed SchemaBuilder.types rfl (fun _ _ step held => types_afterStep held step)
    steps
  directives := eq_firstNamed SchemaBuilder.directives rfl
    (fun _ _ step held => directives_afterStep held step) steps
  distinct := isDistinct_afterSteps steps
  typeUnderName _ _ := (isDistinct_afterSteps steps).types.lookup_eq_some
  directiveUnderName _ _ := (isDistinct_afterSteps steps).directives.lookup_eq_some
  built _ name built := type?_build (isDistinct_afterSteps steps) built name
  typeRefused _ _ := addType_eq_error
  directiveRefused _ _ := addDirective_eq_error
  failed _ _ _ := eq_of_act_failed
  typeAgain _ _ _ found added := ((addType_known found).mp added).2
  directiveAgain _ _ _ found added := ((addDirective_known found).mp added).2

end

end SchemaBuilder

end GraphqlReference
