import GraphqlReference.Proofs.Schema.Extending
import GraphqlReference.Proofs.Sdl.Declaring

namespace GraphqlReference.Sdl

/-!
The root types of a document. The last block that names an operation decides on its root. Where no
block does, a type of the conventional name serves, unless there is a block that rules it out.
-/

def blocks (definitions : List Definition) : List SchemaBlock :=
  definitions.filterMap Definition.block?

/-- Whether a type of this name is defined; extensions define none. -/
def definesType (definitions : List Definition) (name : String) : Bool :=
  (definitions.filterMap Definition.type?).any (·.name == name)

def namedRoot (definitions : List Definition) (operation : Operation) : Option String :=
  (blocks definitions).reverse.findSome? (·.roots.get operation)

/-- The root of an operation, given which blocks rule out the types of the conventional names. -/
def rootUnder (closes : SchemaBlock → Bool) (definitions : List Definition)
    (operation : Operation) : Option String :=
  match namedRoot definitions operation with
  | some name => some name
  | none =>
    if (blocks definitions).any closes then none
    else if definesType definitions operation.conventionalRoot then some operation.conventionalRoot
    else none

section

variable {definitions : List Definition} {builder next : SchemaBuilder}

/-- What a builder that has taken up definitions knows of roots. -/
structure KnowsRoots (definitions : List Definition) (builder : SchemaBuilder) : Prop where
  named : ∀ operation, builder.roots.get operation = namedRoot definitions operation
  closed : builder.explicitRoots = (blocks definitions).any fun _ => true
  types : ∀ name, (builder.type? name).isSome =
    ((SchemaBuilder.new.type? name).isSome || definesType definitions name)

theorem knowsRoots_new : KnowsRoots [] .new where
  named operation := by cases operation <;> rfl
  closed := rfl
  types name := by simp [definesType]

theorem get_override (roots newer : Roots) (operation : Operation) :
    (roots.override newer).get operation = (newer.get operation).or (roots.get operation) := by
  cases operation <;> simp [Roots.override, Roots.get, Option.orElse_eq_or]

theorem KnowsRoots.schema (known : KnowsRoots definitions builder) (block : SchemaBlock) :
    KnowsRoots (definitions ++ [.schema block]) (block.apply builder) where
  named operation := by
    have before := known.named operation
    simp only [namedRoot, blocks, List.filterMap_append, List.filterMap_cons, List.filterMap_nil,
      Definition.block?, List.reverse_append, List.reverse_singleton, List.singleton_append,
      List.findSome?_cons] at before ⊢
    rw [SchemaBlock.apply, get_override, before]
    cases block.roots.get operation <;> rfl
  closed := by simp [blocks, SchemaBlock.apply]
  types name := by
    have before := known.types name
    simpa [definesType, SchemaBlock.apply, SchemaBuilder.type?, List.filterMap_cons] using before

theorem isSome_type?_addType {definition : TypeDefinition}
    (added : builder.addType definition = .ok next) (name : String) :
    (next.type? name).isSome = ((builder.type? name).isSome || definition.name == name) := by
  cases found : builder.type? definition.name with
  | some existing =>
      obtain ⟨_, rfl⟩ := (SchemaBuilder.addType_known found).mp added
      cases same : definition.name == name with
      | false => simp
      | true =>
          rw [beq_iff_eq] at same
          simp [← same, found]
  | none =>
      rw [SchemaBuilder.addType_new found] at added
      obtain ⟨⟩ := added
      rw [SchemaBuilder.type?, List.lookup_append, Option.isSome_or, List.lookup_cons,
        BEq.comm (a := name)]
      cases definition.name == name <;> rfl

theorem KnowsRoots.declare (known : KnowsRoots definitions builder) {definition : Definition}
    (declared : declare builder definition = .ok next) :
    KnowsRoots (definitions ++ [definition]) next := by
  cases definition with
  | schema block =>
      cases declared
      exact known.schema block
  | extension extension =>
      cases declared
      refine ⟨fun operation => ?_, ?_, fun name => ?_⟩
      · simpa [namedRoot, blocks, List.filterMap_cons] using known.named operation
      · simpa [blocks, List.filterMap_cons] using known.closed
      · simpa [definesType, List.filterMap_cons] using known.types name
  | type definition =>
      have kept : next.roots = builder.roots ∧ next.explicitRoots = builder.explicitRoots := by
        cases found : builder.type? definition.name with
        | some existing =>
            obtain ⟨_, rfl⟩ := (SchemaBuilder.addType_known found).mp declared
            exact ⟨rfl, rfl⟩
        | none =>
            rw [Sdl.declare, SchemaBuilder.addType_new found] at declared
            cases declared
            exact ⟨rfl, rfl⟩
      refine ⟨fun operation => ?_, ?_, fun name => ?_⟩
      · simpa [namedRoot, blocks, kept, List.filterMap_cons] using known.named operation
      · simpa [blocks, kept, List.filterMap_cons] using known.closed
      · rw [isSome_type?_addType declared, known.types]
        simp [definesType, Bool.or_assoc]
  | directive definition =>
      have kept : next.roots = builder.roots ∧ next.explicitRoots = builder.explicitRoots ∧
          next.types = builder.types := by
        cases found : builder.directive? definition.name with
        | some existing =>
            obtain ⟨_, rfl⟩ := (SchemaBuilder.addDirective_known found).mp declared
            exact ⟨rfl, rfl, rfl⟩
        | none =>
            rw [Sdl.declare, SchemaBuilder.addDirective_new found] at declared
            cases declared
            exact ⟨rfl, rfl, rfl⟩
      refine ⟨fun operation => ?_, ?_, fun name => ?_⟩
      · simpa [namedRoot, blocks, kept, List.filterMap_cons] using known.named operation
      · simpa [blocks, kept, List.filterMap_cons] using known.closed
      · simpa [definesType, SchemaBuilder.type?, kept, List.filterMap_cons] using known.types name

theorem knowsRoots_foldlM (folded : definitions.foldlM declare .new = .ok builder) :
    KnowsRoots definitions builder := by
  induction definitions using List.reverseRec generalizing builder with
  | nil =>
      cases folded
      exact knowsRoots_new
  | append_singleton earlier last ih =>
      rw [List.foldlM_append, bind_eq_ok] at folded
      obtain ⟨before, foldedEarlier, stepped⟩ := folded
      rw [List.foldlM_cons, bind_eq_ok] at stepped
      obtain ⟨_, stepped, ⟨⟩⟩ := stepped
      exact (ih foldedEarlier).declare stepped

/-- Extensions of types leave the roots alone. -/
theorem knowsRoots_collect (collected : collect definitions = .ok builder) :
    KnowsRoots definitions builder := by
  obtain ⟨declared, folded, extended⟩ := bind_eq_ok.mp collected
  have known := knowsRoots_foldlM folded
  obtain ⟨_, rfl⟩ := SchemaBuilder.foldlM_extendType_eq_ok.mp extended
  refine ⟨known.named, known.closed, fun name => ?_⟩
  rw [SchemaBuilder.type?_extendTypes, Option.isSome_map, known.types]

theorem KnowsRoots.root? (known : KnowsRoots definitions builder) (operation : Operation) :
    builder.root? operation = rootUnder (fun _ => true) definitions operation := by
  have conventional : SchemaBuilder.new.type? operation.conventionalRoot = none := by
    cases operation <;> rfl
  unfold SchemaBuilder.root? rootUnder
  rw [known.named, known.closed]
  cases namedRoot definitions operation with
  | some name => rfl
  | none =>
      dsimp only
      rw [known.types, conventional]
      cases (blocks definitions).any fun _ => true <;>
        cases definesType definitions operation.conventionalRoot <;> rfl

theorem root?_build {schema : Schema} (built : builder.build = .ok schema) :
    schema.root? = builder.root? := by
  unfold SchemaBuilder.build at built
  split at built
  · cases built
  · rename_i query found
    cases built
    funext operation
    cases operation
    · exact found.symm
    · rfl
    · rfl

theorem build_missing : builder.build = .error .missingQueryType ↔ builder.root? .query = none := by
  unfold SchemaBuilder.build
  cases builder.root? .query <;> simp

/-- It makes no difference whether all blocks close the roots or only those that define the schema,
if there is such a one or no block at all. -/
theorem rootUnder_definition
    (defined : (∀ block ∈ blocks definitions, block.extending = true) → blocks definitions = [])
    (operation : Operation) :
    rootUnder (fun block => !block.extending) definitions operation =
      rootUnder (fun _ => true) definitions operation := by
  have same : ((blocks definitions).any fun block => !block.extending) =
      (blocks definitions).any fun _ => true := by
    cases extending : (blocks definitions).all (·.extending) with
    | true => simp [defined (List.all_eq_true.mp extending)]
    | false =>
        obtain ⟨block, member, defining⟩ := List.all_eq_false.mp extending
        rw [List.any_eq_true.mpr ⟨block, member, by simpa using defining⟩,
          List.any_eq_true.mpr ⟨block, member, rfl⟩]
  unfold rootUnder
  rw [same]

end

/-- The roots of a document, where any schema block rules out the conventional names, also one that
only extends the schema. -/
theorem load_roots {definitions : List Definition} (accepted : Succeeds (collect definitions)) :
    (load definitions = .error .missingQueryType ↔
      rootUnder (fun _ => true) definitions .query = none) ∧
    (rootUnder (fun _ => true) definitions .query ≠ none → ∃ schema,
      load definitions = .ok schema ∧
        ∀ operation, schema.root? operation = rootUnder (fun _ => true) definitions operation) ∧
    (((∀ block ∈ blocks definitions, block.extending = true) → blocks definitions = []) →
      ∀ operation, rootUnder (fun block => !block.extending) definitions operation =
        rootUnder (fun _ => true) definitions operation) := by
  obtain ⟨builder, collected⟩ := accepted
  have known := knowsRoots_collect collected
  have loaded : load definitions = builder.build := by
    rw [load, collected]
    rfl
  have missing := @build_missing builder
  rw [known.root?] at missing
  refine ⟨loaded ▸ missing, fun named => ?_, rootUnder_definition⟩
  cases built : builder.build with
  | error fault =>
      unfold SchemaBuilder.build at built
      split at built
      · rename_i absent
        exact absurd ((known.root? .query).symm.trans absent) named
      · cases built
  | ok schema =>
      refine ⟨schema, loaded.trans built, fun operation => ?_⟩
      rw [root?_build built, known.root?]

/-- Two blocks name the root of mutations; the root of queries goes by its conventional name. -/
def rootDefinitions : List Definition :=
  [ .schema ⟨false, ⟨some "Root", some "Write", none⟩, []⟩
  , .type ⟨"Subscription", none, .user, [], .object [] []⟩
  , .schema ⟨true, ⟨none, some "Change", none⟩, []⟩ ]

theorem load_roots_changed : Succeeds (collect rootDefinitions) ∧ ∃ schema,
    load rootDefinitions = .ok schema ∧ schema.root? .query = some "Root" ∧
      schema.root? .mutation = some "Change" ∧ schema.root? .subscription = none := by
  have accepted : Succeeds (collect rootDefinitions) := ⟨_, rfl⟩
  obtain ⟨schema, loaded, roots⟩ := (load_roots accepted).2.1 (by decide)
  exact ⟨accepted, schema, loaded, roots .query, roots .mutation, roots .subscription⟩

/-- The documented rule does not hold: a block that only extends the schema defines none. -/
theorem not_load_roots_of_definitions : ¬ ∀ (source : String) (definitions : List Definition),
    readDocument source.toList = .ok definitions → Succeeds (collect definitions) →
    (parse source = .error .missingQueryType ↔
      rootUnder (fun block => !block.extending) definitions .query = none) := by
  intro documented
  have read : readDocument "extend schema @a type Query".toList =
      .ok [.schema ⟨true, .empty, [⟨"a", []⟩]⟩,
        .type ⟨"Query", none, .user, [], .object [] []⟩] := by rfl
  have missing := (documented _ _ read ⟨_, rfl⟩).mp rfl
  exact absurd missing (by decide)

end GraphqlReference.Sdl
