import GraphqlReference.Proofs.Schema.Lookup
import GraphqlReference.Proofs.Schema.Merging
import GraphqlReference.Proofs.Schema.Obtained
import GraphqlReference.Proofs.Sdl.Declaring
import GraphqlReference.Proofs.Sdl.Definitions

namespace GraphqlReference.Sdl

theorem newItems_eq_filter {α : Type} (name : α → String) (base items : List α) :
    newItems name base items = items.filter fun item => name item ∉ base.map name := by
  refine List.filter_congr fun item _ => ?_
  rw [Bool.eq_iff_iff, Option.isNone_iff_eq_none, List.find?_eq_none, decide_eq_true_eq]
  simp

/-- The types that a document defines itself. Definitions of built-in types are left out. -/
def userTypes (definitions : List Definition) : List TypeDefinition :=
  (definitions.filterMap Definition.type?).filter fun definition =>
    definition.name ∉ BuiltIn.scalars.map TypeDefinition.name

def userDirectives (definitions : List Definition) : List DirectiveDefinition :=
  (definitions.filterMap Definition.directive?).filter fun definition =>
    definition.name ∉ BuiltIn.directives.map DirectiveDefinition.name

/-- All definitions of a document but its extensions. -/
def withoutExtensions (definitions : List Definition) : List Definition :=
  definitions.filter fun definition => definition.extension?.isNone

section

variable {definitions definitions' : List Definition} {builder : SchemaBuilder}

theorem types_declared : (declared definitions).types =
    keyed TypeDefinition.name (BuiltIn.scalars ++ userTypes definitions) := by
  rw [declared, newItems_eq_filter, userTypes]

theorem directives_declared : (declared definitions).directives =
    keyed DirectiveDefinition.name (BuiltIn.directives ++ userDirectives definitions) := by
  rw [declared, newItems_eq_filter _ BuiltIn.directives, userDirectives]

theorem type?_declared_eq (name : String) :
    (declared definitions).type? name =
      (BuiltIn.scalars ++ userTypes definitions).find? (·.name == name) := by
  rw [SchemaBuilder.type?, types_declared, lookup_keyed]

theorem directive?_declared_eq (name : String) :
    (declared definitions).directive? name =
      (BuiltIn.directives ++ userDirectives definitions).find? (·.name == name) := by
  rw [SchemaBuilder.directive?, directives_declared, lookup_keyed]

theorem mem_userTypes {definition : TypeDefinition} (member : definition ∈ userTypes definitions) :
    .type definition ∈ definitions := by
  obtain ⟨origin, inside, found⟩ := List.mem_filterMap.mp (List.mem_filter.mp member).1
  cases origin with
  | type =>
      obtain ⟨⟩ := found
      exact inside
  | schema | extension | directive => cases found

theorem mem_userDirectives {definition : DirectiveDefinition} :
    definition ∈ userDirectives definitions ↔ .directive definition ∈ definitions ∧
      definition.name ∉ BuiltIn.directives.map DirectiveDefinition.name := by
  rw [userDirectives, List.mem_filter, List.mem_filterMap, decide_eq_true_eq]
  refine and_congr_left fun _ => ⟨?_, fun inside => ⟨_, inside, rfl⟩⟩
  rintro ⟨origin, inside, found⟩
  cases origin with
  | directive =>
      obtain ⟨⟩ := found
      exact inside
  | schema | extension | type => cases found

theorem origin_userTypes (user : ∀ definition ∈ definitions, definition.IsUser) :
    ∀ definition ∈ userTypes definitions, definition.origin = .user :=
  fun _ member => user _ (mem_userTypes member)

theorem isBuiltIn_false {origin : Origin} (user : origin = .user) :
    ¬ (origin == .builtIn) = true := by
  rw [user]
  decide

theorem isBuiltIn_type?_declared (user : ∀ definition ∈ definitions, definition.IsUser)
    {name : String} (absent : SchemaBuilder.new.type? name = none) {existing : TypeDefinition}
    (found : (declared definitions).type? name = some existing) : ¬ existing.isBuiltIn = true := by
  rw [type?_new] at absent
  rw [type?_declared_eq, List.find?_append, absent, Option.none_or] at found
  exact isBuiltIn_false (origin_userTypes user _ (List.mem_of_find?_eq_some found))

theorem isBuiltIn_directive?_declared (user : ∀ definition ∈ definitions, definition.IsUser)
    {name : String} (absent : SchemaBuilder.new.directive? name = none)
    {existing : DirectiveDefinition}
    (found : (declared definitions).directive? name = some existing) :
    ¬ existing.isBuiltIn = true := by
  rw [directive?_new] at absent
  rw [directive?_declared_eq, List.find?_append, absent, Option.none_or] at found
  exact isBuiltIn_false (user _ (mem_userDirectives.mp (List.mem_of_find?_eq_some found)).1)

theorem type?_declared_known {name : String} {existing : TypeDefinition}
    (found : SchemaBuilder.new.type? name = some existing) :
    (declared definitions).type? name = some existing := by
  rw [type?_new] at found
  rw [type?_declared_eq, List.find?_append, found, Option.some_or]

theorem directive?_declared_known {name : String} {existing : DirectiveDefinition}
    (found : SchemaBuilder.new.directive? name = some existing) :
    (declared definitions).directive? name = some existing := by
  rw [directive?_new] at found
  rw [directive?_declared_eq, List.find?_append, found, Option.some_or]

theorem declare_user {definition : Definition}
    (user : ∀ definition ∈ definitions, definition.IsUser)
    (stepped : declare (declared definitions) definition = .ok builder) :
    builder = declared (definitions ++ [definition]) := by
  cases definition with
  | schema block =>
      obtain ⟨⟩ := stepped
      exact (declared_schema block).symm
  | extension extension =>
      obtain ⟨⟩ := stepped
      exact (declared_extension extension).symm
  | type definition =>
      cases known : SchemaBuilder.new.type? definition.name with
      | some existing =>
          obtain ⟨_, rfl⟩ := (SchemaBuilder.addType_known (type?_declared_known known)).mp stepped
          exact (declared_type_known known).symm
      | none =>
          cases before : (declared definitions).type? definition.name with
          | some existing =>
              obtain ⟨accepted, _⟩ := (SchemaBuilder.addType_known before).mp stepped
              exact absurd (accepted existing before).1 (isBuiltIn_type?_declared user known before)
          | none =>
              rw [declare, SchemaBuilder.addType_new before] at stepped
              obtain ⟨⟩ := stepped
              exact (declared_type_new known).symm
  | directive definition =>
      cases known : SchemaBuilder.new.directive? definition.name with
      | some existing =>
          obtain ⟨_, rfl⟩ :=
            (SchemaBuilder.addDirective_known (directive?_declared_known known)).mp stepped
          exact (declared_directive_known known).symm
      | none =>
          cases before : (declared definitions).directive? definition.name with
          | some existing =>
              obtain ⟨accepted, _⟩ := (SchemaBuilder.addDirective_known before).mp stepped
              exact absurd (accepted existing before)
                (isBuiltIn_directive?_declared user known before)
          | none =>
              rw [declare, SchemaBuilder.addDirective_new before] at stepped
              obtain ⟨⟩ := stepped
              exact (declared_directive_new known).symm

theorem foldlM_declare_user (user : ∀ definition ∈ definitions, definition.IsUser)
    (folded : definitions.foldlM declare .new = .ok builder) : builder = declared definitions := by
  induction definitions using List.reverseRec generalizing builder with
  | nil =>
      obtain ⟨⟩ := folded
      rfl
  | append_singleton earlier last ih =>
      obtain ⟨userEarlier, _⟩ := List.forall_mem_append.mp user
      rw [List.foldlM_append, bind_eq_ok] at folded
      obtain ⟨next, foldedEarlier, stepped⟩ := folded
      obtain rfl := ih userEarlier foldedEarlier
      rw [List.foldlM_cons, bind_eq_ok] at stepped
      obtain ⟨_, stepped, ⟨⟩⟩ := stepped
      exact declare_user userEarlier stepped

theorem types_build {schema : Schema} (built : builder.build = .ok schema) :
    schema.types = builder.types.map Prod.snd ∧
      schema.directives = builder.directives.map Prod.snd := by
  unfold SchemaBuilder.build at built
  split at built
  · cases built
  · obtain ⟨⟩ := built
    exact ⟨rfl, rfl⟩

/-- Every extension merges into the type of its name and leaves all others alone. -/
theorem collect_merged (user : ∀ definition ∈ definitions, definition.IsUser)
    (collected : collect definitions = .ok builder) :
    builder.types.map Prod.snd = (BuiltIn.scalars ++ userTypes definitions).map
        (·.mergedWith (definitions.filterMap Definition.extension?)) ∧
      builder.directives.map Prod.snd = BuiltIn.directives ++ userDirectives definitions := by
  obtain ⟨base, folded, extended⟩ := bind_eq_ok.mp collected
  have distinct : base.IsDistinct :=
    foldlM_invariant (fun _ => isDistinct_declare) SchemaBuilder.isDistinct_new folded
  obtain rfl := foldlM_declare_user user folded
  obtain ⟨admitted, rfl⟩ := SchemaBuilder.foldlM_extendType_eq_ok.mp extended
  refine ⟨?_, directives_declared ▸ values_keyed⟩
  rw [SchemaBuilder.extendTypes, types_declared, keyed, List.map_map, List.map_map]
  refine List.map_congr_left fun definition member => ?_
  refine TypeDefinition.extendedBy_eq_mergedWith fun extension inside named => ?_
  obtain ⟨other, found, fits⟩ := admitted extension inside
  rw [named, type?_declared_eq] at found
  have names := distinct.types.values
  rw [types_declared, values_keyed] at names
  obtain rfl := Option.some.inj (found.symm.trans ((find?_eq_some_iff names).mpr ⟨member, rfl⟩))
  exact fits.symm

theorem foldlM_declare_withoutExtensions :
    (withoutExtensions definitions).foldlM declare builder =
      definitions.foldlM declare builder := by
  induction definitions generalizing builder with
  | nil => rfl
  | cons first rest ih =>
      cases first with
      | extension extension => exact ih
      | schema | type | directive =>
          exact congrArg (declare builder _ >>= ·) (funext fun _ => ih)

/-- It does not matter where extensions stand between other definitions. -/
theorem load_interleaved (same : withoutExtensions definitions = withoutExtensions definitions')
    (sameExtensions : definitions.filterMap Definition.extension? =
      definitions'.filterMap Definition.extension?) : load definitions = load definitions' := by
  unfold load collect
  rw [← foldlM_declare_withoutExtensions, same, sameExtensions, foldlM_declare_withoutExtensions]

end

/-- A document gives the built-in types and directives and behind them its own, in their order. Its
extensions add to the lists of the types they name and to nothing else, wherever they stand. -/
theorem parse_merged {source : String} {schema : Schema} (parsed : parse source = .ok schema) :
    ∃ definitions, readDocument source.toList = .ok definitions ∧
      schema.types = (BuiltIn.scalars ++ userTypes definitions).map
        (·.mergedWith (definitions.filterMap Definition.extension?)) ∧
      (∀ definition ∈ userTypes definitions, definition.origin = .user) ∧
      (∀ scalar ∈ BuiltIn.scalars, ∃ usages,
        scalar.mergedWith (definitions.filterMap Definition.extension?) =
          { scalar with usages := scalar.usages ++ usages }) ∧
      schema.directives = BuiltIn.directives ++ userDirectives definitions ∧
      ∀ source' definitions', readDocument source'.toList = .ok definitions' →
        withoutExtensions definitions' = withoutExtensions definitions →
        definitions'.filterMap Definition.extension? =
          definitions.filterMap Definition.extension? →
        parse source' = .ok schema := by
  obtain ⟨definitions, read, loaded⟩ := bind_eq_ok.mp parsed
  obtain ⟨builder, collected, built⟩ := bind_eq_ok.mp loaded
  have user := isUser_readDocument read
  obtain ⟨types, directives⟩ := collect_merged user collected
  obtain ⟨sameTypes, sameDirectives⟩ := types_build built
  refine ⟨definitions, read, sameTypes.trans types, origin_userTypes user, ?_,
    sameDirectives.trans directives, ?_⟩
  · intro scalar member
    have bodies : BuiltIn.scalars.map TypeDefinition.body = List.replicate 5 .scalar := rfl
    have body : scalar.body = .scalar :=
      List.eq_of_mem_replicate (bodies ▸ List.mem_map_of_mem member)
    exact ⟨_, TypeDefinition.mergedWith_scalar _ body⟩
  · intro source' definitions' read' same sameExtensions
    exact bind_eq_ok.mpr ⟨definitions', read', (load_interleaved same sameExtensions).trans loaded⟩

/-- A type that is extended, and a built-in one that is defined again and extended. -/
def extendedDefinitions : List Definition :=
  [ .extension ⟨"ID", none, .user, [⟨"key", []⟩], .scalar⟩
  , .type ⟨"Query", none, .user, [⟨"cached", []⟩], .object [] []⟩
  , .extension ⟨"Query", none, .user, [], .object ["Node"] []⟩
  , .type ⟨"ID", none, .user, [], .scalar⟩ ]

theorem readDocument_extended :
    readDocument ("extend scalar ID @key type Query @cached extend type Query implements Node " ++
      "scalar ID").toList = .ok extendedDefinitions := by
  rfl

theorem parse_merged_extended : ∃ schema,
    parse ("extend scalar ID @key type Query @cached extend type Query implements Node " ++
      "scalar ID") = .ok schema ∧
    schema.types = (BuiltIn.scalars ++ userTypes extendedDefinitions).map
      (·.mergedWith (extendedDefinitions.filterMap Definition.extension?)) ∧
    (∃ description,
      schema.type? "ID" = some ⟨"ID", some description, .builtIn, [⟨"key", []⟩], .scalar⟩) ∧
    schema.type? "Query" =
      some ⟨"Query", none, .user, [⟨"cached", []⟩], .object ["Node"] []⟩ ∧
    parse ("type Query @cached scalar ID extend scalar ID @key " ++
      "extend type Query implements Node") = .ok schema := by
  obtain ⟨schema, parsed⟩ : ∃ schema,
      parse ("extend scalar ID @key type Query @cached extend type Query implements Node " ++
        "scalar ID") = .ok schema := ⟨_, rfl⟩
  obtain ⟨definitions, read, types, _, _, _, interleaved⟩ := parse_merged parsed
  obtain rfl : extendedDefinitions = definitions :=
    Except.ok.inj (readDocument_extended.symm.trans read)
  refine ⟨schema, parsed, types, ?_, ?_, interleaved _ _ rfl rfl rfl⟩
  · unfold Schema.type?
    rw [types]
    exact ⟨_, rfl⟩
  · unfold Schema.type?
    rw [types]
    rfl

end GraphqlReference.Sdl
