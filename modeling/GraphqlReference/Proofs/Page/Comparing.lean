import Mathlib.Data.List.Sort
import GraphqlReference.Page.Document
import GraphqlReference.Proofs.Page.Items
import GraphqlReference.Proofs.Page.Supplying
import GraphqlReference.Proofs.Schema.Likeness

namespace GraphqlReference.Page

open Html

/-- What the markup of like parts has in common: a relation of fragments and a relation of sections,
both kept by whatever the printers put together, that hold for the markup of like descriptions. -/
structure Comparison extends Likeness where
  fragment : Fragment → Fragment → Prop
  markup : Section → Section → Prop
  fragment_refl (shown : Fragment) : fragment shown shown
  fragment_append {first first' second second' : Fragment} : fragment first first' →
    fragment second second' → fragment (first ++ second) (first' ++ second')
  markup_refl (shown : Section) : markup shown shown
  markup_append {first first' second second' : Section} : markup first first' →
    markup second second' → markup (first ++ second) (first' ++ second')
  inline {content content' : Fragment} : fragment content content' →
    markup [.inline content] [.inline content']
  link {description description' : Option String} (style : String) (target : Option String)
    (shown : Fragment) : described description description' →
      fragment (.link style target (description.getD "") shown)
        (.link style target (description'.getD "") shown)
  descriptionBlock {description description' : Option String} : described description description' →
    markup (descriptionBlock description) (descriptionBlock description')
  memberDescription {description description' : Option String} :
    described description description' →
      markup (memberDescription description) (memberDescription description')
  isDescribed {description description' : Option String} : described description description' →
    isDescribed description = isDescribed description'

/-- Usages that may stand for one another apply the same directive and show the same arguments. -/
def SuppliesAlike (likeness : Likeness) (schema : Schema) : Prop :=
  ∀ use use', likeness.used use use' →
    use.directive = use'.directive ∧ ∀ definition ∈ schema.directive? use.directive,
      suppliedArguments definition use.arguments = suppliedArguments definition use'.arguments

theorem suppliesAlike_of_eq {likeness : Likeness} {schema : Schema}
    (same : ∀ use use', likeness.used use use' → use = use') : SuppliesAlike likeness schema := by
  intro use use' used
  cases same use use' used
  exact ⟨rfl, fun _ _ => rfl⟩

/-- What the printers ask of two schemas is alike, wherever they ask for it. -/
structure Comparison.Compares (comparison : Comparison) (schema schema' : Schema) : Prop where
  description : comparison.described schema.description schema'.description
  roots : schema.root? = schema'.root?
  usages : List.Forall₂ comparison.used schema.usages schema'.usages
  types (name : String) : Option.Rel (TypeDefinition.Like comparison.toLikeness)
    (schema.type? name) (schema'.type? name)
  directives (name : String) : Option.Rel (DirectiveDefinition.Like comparison.toLikeness)
    (schema.directive? name) (schema'.directive? name)
  supplied : SuppliesAlike comparison.toLikeness schema

variable {comparison : Comparison}

namespace Comparison

theorem Compares.of_like {schema schema' : Schema}
    (like : schema.Like comparison.toLikeness schema')
    (supplied : SuppliesAlike comparison.toLikeness schema) :
    comparison.Compares schema schema' where
  description := like.description
  roots := like.root?
  usages := like.usages
  types := like.type?
  directives := like.directive?
  supplied := supplied

theorem fragment_cons (piece : Piece) {shown shown' : Fragment}
    (related : comparison.fragment shown shown') :
    comparison.fragment (piece :: shown) (piece :: shown') :=
  comparison.fragment_append (comparison.fragment_refl [piece]) related

theorem fragment_behind (before : Fragment) {shown shown' : Fragment}
    (related : comparison.fragment shown shown') :
    comparison.fragment (before ++ shown) (before ++ shown') :=
  comparison.fragment_append (comparison.fragment_refl before) related

theorem fragment_before {shown shown' : Fragment} (related : comparison.fragment shown shown')
    (behind : Fragment) : comparison.fragment (shown ++ behind) (shown' ++ behind) :=
  comparison.fragment_append related (comparison.fragment_refl behind)

theorem fragment_division (style : String) {shown shown' : Fragment}
    (related : comparison.fragment shown shown') :
    comparison.fragment (.division style shown) (.division style shown') :=
  comparison.fragment_cons _ (comparison.fragment_before related _)

theorem fragment_join (mark : Fragment) {list list' : List Fragment}
    (parts : List.Forall₂ comparison.fragment list list') :
    comparison.fragment (.join mark list) (.join mark list') := by
  induction parts with
  | nil => exact comparison.fragment_refl []
  | cons here others ih =>
      cases others with
      | nil => exact here
      | cons => exact comparison.fragment_append (comparison.fragment_before here mark) ih

theorem markup_cons (token : Token Piece) {shown shown' : Section}
    (related : comparison.markup shown shown') :
    comparison.markup (token :: shown) (token :: shown') :=
  comparison.markup_append (comparison.markup_refl [token]) related

theorem markup_before {shown shown' : Section} (related : comparison.markup shown shown')
    (behind : Section) : comparison.markup (shown ++ behind) (shown' ++ behind) :=
  comparison.markup_append related (comparison.markup_refl behind)

theorem item {shown shown' : Section} (related : comparison.markup shown shown') :
    comparison.markup (item shown) (item shown') :=
  comparison.markup_cons _ (comparison.markup_before related _)

theorem sectionHead (anchor : String) {description description' : Option String}
    (here : comparison.described description description') :
    comparison.markup (sectionHead anchor description) (sectionHead anchor description') :=
  comparison.markup_cons _ (comparison.descriptionBlock here)

theorem braced {head head' : Fragment} {shown shown' : Section}
    (heads : comparison.fragment head head') (related : comparison.markup shown shown') :
    comparison.markup (braced head shown) (braced head' shown') := by
  have line := comparison.fragment_division "line" (comparison.fragment_before heads
    (.spacer :: Fragment.span "bracket-curly" "\x7b"))
  exact comparison.markup_before (comparison.markup_append (comparison.inline line)
    (comparison.markup_cons _ related)) _

theorem clause (lead mark : Fragment) {links links' : List Fragment}
    (parts : List.Forall₂ comparison.fragment links links') :
    comparison.fragment (if links.isEmpty then [] else lead ++ .spacer :: Fragment.join mark links)
      (if links'.isEmpty then [] else lead ++ .spacer :: Fragment.join mark links') := by
  have joined := comparison.fragment_join mark parts
  cases parts with
  | nil => exact comparison.fragment_refl []
  | cons => exact comparison.fragment_behind lead (comparison.fragment_cons _ joined)

end Comparison

/-- A walk asks of a schema nothing but the interfaces that are declared under each name. -/
theorem walk_congr {schema schema' : Schema}
    (declared : ∀ name, (schema.type? name).map TypeDefinition.interfaces =
      (schema'.type? name).map TypeDefinition.interfaces) (visits : List Visit)
    (seen : List String) : walk schema visits seen = walk schema' visits seen := by
  fun_induction walk schema visits seen with
  | case1 seen => rw [walk]
  | case2 name rest seen ih => rw [walk, ih]
  | case3 name rest seen known ih => rw [walk, if_pos known, ih]
  | case4 name rest seen unknown found =>
      have entry := declared name
      rw [walk, if_neg unknown]
      split
      · rfl
      · rename_i found'
        rw [found, found'] at entry
        cases entry
  | case5 name rest seen unknown definition found ih =>
      have entry := declared name
      rw [walk, if_neg unknown]
      split
      · rename_i found'
        rw [found, found'] at entry
        cases entry
      · rename_i definition' found'
        rw [found, found'] at entry
        rw [ih, Option.some.inj entry]

theorem forall₂_zip_zip {α α' β β' : Type} {related : α → α' → Prop} {related' : β → β' → Prop}
    {first : List α} {first' : List α'} {second : List β} {second' : List β'}
    (all : List.Forall₂ related first first') (all' : List.Forall₂ related' second second') :
    List.Forall₂ (fun pair pair' => related pair.1 pair'.1 ∧ related' pair.2 pair'.2)
      (first.zip second) (first'.zip second') := by
  induction all generalizing second second' with
  | nil => exact .nil
  | cons here _ ih =>
      cases all' with
      | nil => exact .nil
      | cons here' others' => exact .cons ⟨here, here'⟩ (ih others')

/-- Separators depend on which members are described, and both lists describe the same ones. -/
theorem memberBlocks_compared {shown shown' : List (Option String × Section)}
    (all : List.Forall₂ (fun member member' => comparison.described member.1 member'.1 ∧
      comparison.markup member.2 member'.2) shown shown') :
    comparison.markup (memberBlocks shown).flatten (memberBlocks shown').flatten := by
  induction all with
  | nil => exact comparison.markup_refl []
  | cons here others ih =>
      cases others with
      | nil => exact comparison.markup_before (comparison.item here.2) []
      | cons next _ =>
          rw [flatten_memberBlocks_cons, flatten_memberBlocks_cons, comparison.isDescribed here.1,
            comparison.isDescribed next.1]
          exact comparison.markup_append (comparison.item here.2)
            (comparison.markup_append (comparison.markup_refl _) ih)

theorem members_compared {α : Type} {related : α → α → Prop} {description : α → Option String}
    {print print' : α → Except RenderError Section}
    (described : ∀ member member', related member member' →
      comparison.described (description member) (description member'))
    (printed : ∀ member member', related member member' →
      Agree comparison.markup (print member) (print' member'))
    {list list' : List α} (all : List.Forall₂ related list list') :
    Agree comparison.markup (members description print list)
      (members description print' list') := by
  rw [members_eq, members_eq]
  have descriptions : List.Forall₂ comparison.described (list.map description)
      (list'.map description) := by
    rw [List.forall₂_map_left_iff, List.forall₂_map_right_iff]
    exact all.imp described
  exact (Agree.mapM all printed).bind fun _ _ shown =>
    .ok (memberBlocks_compared (forall₂_zip_zip descriptions shown))

section

variable {schema schema' : Schema} (compares : comparison.Compares schema schema')
include compares

theorem typeLink_compared (style : String) (type : TypeRef) :
    Agree comparison.fragment (typeLink schema style type) (typeLink schema' style type) := by
  unfold typeLink
  have found := compares.types type.innermost
  simp only
  generalize schema.type? type.innermost = entry, schema'.type? type.innermost = entry' at found
  cases found with
  | none => exact .error _
  | some here =>
      simp only [here.isBuiltIn]
      exact .bind_same fun shown => .ok (comparison.link _ _ shown here.description)

theorem namedTypeLinks_compared (style : String) (names : List String) :
    Agree (List.Forall₂ comparison.fragment) (names.mapM (namedTypeLink schema style))
      (names.mapM (namedTypeLink schema' style)) :=
  .mapM (List.forall₂_same.mpr fun _ _ => rfl)
    fun name _ here => here ▸ typeLink_compared compares style (.named name)

theorem directiveLink_compared (name : String) :
    Agree comparison.fragment (directiveLink schema name) (directiveLink schema' name) := by
  unfold directiveLink
  have found := compares.directives name
  generalize schema.directive? name = entry, schema'.directive? name = entry' at found
  cases found with
  | none => exact .error _
  | some here =>
      simp only [here.isBuiltIn]
      exact .ok (comparison.link _ _ _ here.description)

theorem usage_compared {use use' : DirectiveUsage} (used : comparison.used use use') :
    Agree comparison.fragment (usage schema use) (usage schema' use') := by
  obtain ⟨same, supplied⟩ := compares.supplied use use' used
  have link := directiveLink_compared compares use'.directive
  have found := compares.directives use'.directive
  unfold usage
  rw [same] at supplied ⊢
  generalize schema.directive? use'.directive = entry,
    schema'.directive? use'.directive = entry' at found supplied
  cases found with
  | none => exact .error _
  | some here =>
      simp only [supplied _ rfl, suppliedArguments_congr here.name here.default?]
      refine .bind_same fun arguments => link.bind fun _ _ linked => .ok ?_
      exact comparison.fragment_cons _ (comparison.fragment_before linked _)

theorem usages_compared {list list' : List DirectiveUsage}
    (all : List.Forall₂ comparison.used list list') :
    Agree comparison.fragment (usages schema list) (usages schema' list') := by
  induction all with
  | nil => exact .ok (comparison.fragment_refl [])
  | cons first _ ih =>
      exact (usage_compared compares first).bind fun _ _ here => ih.bind fun _ _ later =>
        .ok (comparison.fragment_append here later)

theorem argument_compared {declared declared' : Argument}
    (here : declared.Like comparison.toLikeness declared') :
    Agree comparison.markup (argument schema declared) (argument schema' declared') := by
  unfold argument
  rw [here.name, here.type, here.default]
  refine .bind_same fun default => ?_
  refine (typeLink_compared compares _ _).bind fun _ _ link => ?_
  refine (usages_compared compares here.usages).bind fun _ _ uses => .ok ?_
  have typed := comparison.fragment_behind
    (Fragment.span "argument-name" declared'.name ++ Fragment.span "colon" ":")
    (comparison.fragment_cons .spacer link)
  exact comparison.markup_append (comparison.memberDescription here.description)
    (comparison.inline (comparison.fragment_append (comparison.fragment_before typed default) uses))

theorem argumentMembers_compared {list list' : List Argument}
    (all : List.Forall₂ (Argument.Like comparison.toLikeness) list list') :
    Agree comparison.markup (argumentMembers schema list) (argumentMembers schema' list') :=
  members_compared (fun _ _ here => here.description)
    (fun _ _ here => argument_compared compares here) all

theorem argumentList_compared {list list' : List Argument}
    (all : List.Forall₂ (Argument.Like comparison.toLikeness) list list') :
    Agree comparison.markup (argumentList schema list) (argumentList schema' list') := by
  have members := argumentMembers_compared compares all
  unfold argumentList
  cases all with
  | nil => exact .ok (comparison.markup_refl [])
  | cons here rest =>
      refine members.bind fun _ _ shown => .ok ?_
      exact comparison.markup_cons _
        (comparison.markup_cons _ (comparison.markup_before shown _))

theorem field_compared {declared declared' : Field}
    (here : declared.Like comparison.toLikeness declared') :
    Agree comparison.markup (field schema declared) (field schema' declared') := by
  unfold field
  rw [here.name, here.type]
  refine (argumentList_compared compares here.arguments).bind fun _ _ arguments => ?_
  refine (typeLink_compared compares _ _).bind fun _ _ link => ?_
  refine (usages_compared compares here.usages).bind fun _ _ uses => .ok ?_
  have typed := comparison.fragment_append (comparison.fragment_behind
    (Fragment.span "colon" ":") (comparison.fragment_cons .spacer link)) uses
  exact comparison.markup_append (comparison.markup_append
    (comparison.markup_before (comparison.memberDescription here.description) _) arguments)
    (comparison.inline typed)

theorem enumItem_compared {declared declared' : EnumItem}
    (here : declared.Like comparison.toLikeness declared') :
    Agree comparison.markup (enumItem schema declared) (enumItem schema' declared') := by
  unfold enumItem
  rw [here.name]
  refine (usages_compared compares here.usages).bind fun _ _ uses => .ok ?_
  exact comparison.markup_append (comparison.memberDescription here.description)
    (comparison.inline
      (comparison.fragment_behind (Fragment.span "enum-item" declared'.name) uses))

theorem implementsClause_compared (interfaces : List String) :
    Agree comparison.fragment (implementsClause schema interfaces)
      (implementsClause schema' interfaces) := by
  unfold implementsClause flattenLinks flattenNames
  rw [walk_congr fun name => map_related (fun _ _ here => here.interfaces) (compares.types name)]
  refine Agree.bind ?_ fun links links' parts => .ok (comparison.clause _ _ parts)
  exact .bind_same (namedTypeLinks_compared compares _)

theorem membersClause_compared (members : List String) :
    Agree comparison.fragment (membersClause schema members) (membersClause schema' members) :=
  (namedTypeLinks_compared compares _ members).bind fun _ _ parts =>
    .ok (comparison.clause _ _ parts)

theorem rootLine_compared (operation : Operation) :
    Agree (fun line line' => comparison.markup (Markup.inline line) (Markup.inline line'))
      (rootLine schema operation) (rootLine schema' operation) := by
  unfold rootLine
  rw [compares.roots]
  split
  · refine (typeLink_compared compares _ _).bind fun _ _ target => .ok ?_
    exact comparison.inline (comparison.fragment_division "line offset-1"
      (comparison.fragment_behind _ (comparison.fragment_cons _ target)))
  · exact .ok (comparison.markup_refl _)

theorem schemaSection_compared :
    Agree comparison.markup (schemaSection schema) (schemaSection schema') := by
  unfold schemaSection
  refine (usages_compared compares compares.usages).bind fun _ _ uses => ?_
  refine (rootLine_compared compares .query).bind fun _ _ query => ?_
  refine (rootLine_compared compares .mutation).bind fun _ _ mutation => ?_
  refine (rootLine_compared compares .subscription).bind fun _ _ subscription => .ok ?_
  have line := comparison.inline (comparison.fragment_division "line"
    (comparison.fragment_before
      (comparison.fragment_behind (selfLink schemaAnchor "schema") uses)
      (.spacer :: Fragment.span "bracket-curly" "\x7b")))
  have head := comparison.markup_append
    (comparison.sectionHead schemaAnchor compares.description) line
  have roots := comparison.markup_append
    (comparison.markup_append (comparison.markup_append head query) mutation) subscription
  exact comparison.markup_before (comparison.markup_before roots _) _

theorem typeContent_compared (head : Fragment) {uses uses' : Fragment}
    (used : comparison.fragment uses uses') {body body' : TypeBody}
    (here : body.Like comparison.toLikeness body') :
    Agree comparison.markup (typeContent schema head uses body)
      (typeContent schema' head uses' body') := by
  have start := comparison.fragment_behind head used
  cases here with
  | object interfaces fields | interface interfaces fields =>
      refine (implementsClause_compared compares interfaces).bind fun _ _ clause => ?_
      refine (members_compared (fun _ _ here => here.description)
        (fun _ _ here => field_compared compares here) fields).bind fun _ _ shown => .ok ?_
      exact comparison.braced
        (comparison.fragment_append (comparison.fragment_behind head clause) used) shown
  | inputObject fields =>
      exact (argumentMembers_compared compares fields).bind fun _ _ shown =>
        .ok (comparison.braced start shown)
  | enum items =>
      exact (members_compared (fun _ _ here => here.description)
        (fun _ _ here => enumItem_compared compares here) items).bind fun _ _ shown =>
          .ok (comparison.braced start shown)
  | union members =>
      exact (membersClause_compared compares members).bind fun _ _ clause =>
        .ok (comparison.inline
          (comparison.fragment_division "line" (comparison.fragment_append start clause)))
  | scalar => exact .ok (comparison.inline (comparison.fragment_division "line" start))

theorem typeSection_compared {definition definition' : TypeDefinition}
    (here : definition.Like comparison.toLikeness definition') :
    Agree comparison.markup (typeSection schema definition) (typeSection schema' definition') := by
  unfold typeSection
  simp only [here.name, here.kind]
  refine (usages_compared compares here.usages).bind fun _ _ used => ?_
  refine (typeContent_compared compares _ used here.body).bind fun _ _ content => .ok ?_
  exact comparison.markup_before
    (comparison.markup_append (comparison.sectionHead _ here.description) content) _

theorem directiveSection_compared {definition definition' : DirectiveDefinition}
    (here : definition.Like comparison.toLikeness definition') :
    Agree comparison.markup (directiveSection schema definition)
      (directiveSection schema' definition') := by
  have clause : locationsClause definition = locationsClause definition' := by
    unfold locationsClause
    rw [here.repeatable, here.locations]
  unfold directiveSection
  simp only [here.name, clause]
  refine (argumentList_compared compares here.arguments).bind fun _ _ arguments => .ok ?_
  exact comparison.markup_before (comparison.markup_before (comparison.markup_append
    (comparison.markup_before (comparison.sectionHead _ here.description) _) arguments) _) _

end

inductive Declaration.Like (likeness : Likeness) : Declaration → Declaration → Prop
  | type {definition definition' : TypeDefinition} : definition.Like likeness definition' →
      Like likeness (.type definition) (.type definition')
  | directive {definition definition' : DirectiveDefinition} :
      definition.Like likeness definition' →
      Like likeness (.directive definition) (.directive definition')

theorem Declaration.Like.refl {likeness : Likeness} (declaration : Declaration) :
    declaration.Like likeness declaration := by
  cases declaration with
  | type definition => exact .type (.refl definition)
  | directive definition => exact .directive (.refl definition)

theorem Declaration.Like.isBuiltIn {likeness : Likeness} {declaration declaration' : Declaration}
    (like : declaration.Like likeness declaration') :
    declaration.isBuiltIn = declaration'.isBuiltIn := by
  cases like with
  | type here | directive here => exact here.isBuiltIn

/-- Sorting by what related items have in common keeps lists of them side by side. -/
theorem forall₂_mergeSort {α β : Type} {related : α → β → Prop} {before : α → α → Bool}
    {before' : β → β → Bool}
    (same : ∀ first second first' second', related first first' → related second second' →
      before first second = before' first' second')
    {items : List α} {items' : List β} (all : List.Forall₂ related items items') :
    List.Forall₂ related (items.mergeSort before) (items'.mergeSort before') := by
  let pairs := items.zip items'
  have paired : ∀ pair ∈ pairs, related pair.1 pair.2 := fun pair member =>
    (List.forall₂_iff_zip.mp all).2 member
  have left : pairs.map Prod.fst = items := List.map_fst_zip all.length_eq.le
  have right : pairs.map Prod.snd = items' := List.map_snd_zip all.length_eq.ge
  let order (pair pair' : α × β) : Bool := before pair.1 pair'.1
  have sorted : (pairs.mergeSort order).map Prod.fst = items.mergeSort before := by
    rw [← left]
    exact List.map_mergeSort fun _ _ _ _ => rfl
  have sorted' : (pairs.mergeSort order).map Prod.snd = items'.mergeSort before' := by
    rw [← right]
    exact List.map_mergeSort fun pair member pair' member' =>
      same _ _ _ _ (paired pair member) (paired pair' member')
  rw [← sorted, ← sorted', List.forall₂_map_left_iff, List.forall₂_map_right_iff,
    List.forall₂_same]
  exact fun pair member => paired pair (List.mem_mergeSort.mp member)

theorem declarations_like {likeness : Likeness} {schema schema' : Schema}
    (like : schema.Like likeness schema') (includeBuiltIns : Bool) :
    List.Forall₂ (Declaration.Like likeness) (declarations schema includeBuiltIns)
      (declarations schema' includeBuiltIns) := by
  have types : List.Forall₂ (TypeDefinition.Like likeness) (schema.types.mergeSort typeBefore)
      (schema'.types.mergeSort typeBefore) := by
    refine forall₂_mergeSort (fun _ _ _ _ here here' => ?_) like.types
    simp only [typeBefore, here.name, here.kind, here'.name, here'.kind]
  have directives : List.Forall₂ (DirectiveDefinition.Like likeness)
      (schema.directives.mergeSort directiveBefore)
      (schema'.directives.mergeSort directiveBefore) := by
    refine forall₂_mergeSort (fun _ _ _ _ here here' => ?_) like.directives
    simp only [directiveBefore, here.name, here'.name]
  have kept : ∀ ⦃declaration declaration' : Declaration⦄, declaration.Like likeness declaration' →
      ((includeBuiltIns || !declaration.isBuiltIn) = true ↔
        (includeBuiltIns || !declaration'.isBuiltIn) = true) := by
    intro _ _ here
    rw [here.isBuiltIn]
  exact List.rel_filter kept (List.rel_append (List.rel_map (fun _ _ => .type) types)
    (List.rel_map (fun _ _ => .directive) directives))

section

variable {schema schema' : Schema} (compares : comparison.Compares schema schema')
include compares

theorem declarationSection_compared {declaration declaration' : Declaration}
    (here : declaration.Like comparison.toLikeness declaration') :
    Agree comparison.markup (declarationSection schema declaration)
      (declarationSection schema' declaration') := by
  cases here with
  | type here => exact typeSection_compared compares here
  | directive here => exact directiveSection_compared compares here

theorem sections_compared (includeBuiltIns : Bool)
    (declared : List.Forall₂ (Declaration.Like comparison.toLikeness)
      (declarations schema includeBuiltIns) (declarations schema' includeBuiltIns)) :
    Agree (List.Forall₂ comparison.markup) (sections schema includeBuiltIns)
      (sections schema' includeBuiltIns) := by
  refine (schemaSection_compared compares).bind fun _ _ first => ?_
  refine (Agree.mapM declared fun _ _ here => declarationSection_compared compares here).bind
    fun _ _ more => ?_
  exact .ok (.cons first more)

end

/-- Comparing pages letter by letter, where like descriptions are the same. -/
def Comparison.exact (likeness : Likeness)
    (same : ∀ {description description'}, likeness.described description description' →
      description = description') : Comparison where
  toLikeness := likeness
  fragment := (· = ·)
  markup := (· = ·)
  fragment_refl _ := rfl
  fragment_append first second := congrArg₂ _ first second
  markup_refl _ := rfl
  markup_append first second := congrArg₂ _ first second
  inline shown := shown ▸ rfl
  link _ _ _ here := same here ▸ rfl
  descriptionBlock here := congrArg _ (same here)
  memberDescription here := congrArg _ (same here)
  isDescribed here := congrArg _ (same here)

theorem fragments_exact {schema schema' : Schema} (likeness : Likeness)
    (same : ∀ {description description'}, likeness.described description description' →
      description = description')
    (compares : (Comparison.exact likeness same).Compares schema schema')
    (declared : ∀ includeBuiltIns, List.Forall₂ (Declaration.Like likeness)
      (declarations schema includeBuiltIns) (declarations schema' includeBuiltIns)) :
    fragments schema = fragments schema' := by
  funext config
  have agree := sections_compared compares config.includeBuiltIns
    (declared config.includeBuiltIns)
  have printed : sections schema config.includeBuiltIns = sections schema' config.includeBuiltIns :=
    (agree.imp fun _ _ _ _ shown => List.forall₂_eq_eq_eq ▸ shown).eq
  unfold fragments
  rw [printed]

end GraphqlReference.Page
