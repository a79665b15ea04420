import GraphqlReference.Proofs.Page.Anchors
import GraphqlReference.Proofs.Page.Resolving
import GraphqlReference.Proofs.Sdl.Writable

namespace GraphqlReference.Page

open Html

/-- A fault names what is referred to and is not there, or cannot be written. -/
inductive Blames (schema : Schema) (references : References) : RenderError → Prop
  | type {name : String} : schema.Mentions references name → ¬ schema.HasType name →
      Blames schema references (.unknownType name)
  | directive {usage : DirectiveUsage} : usage ∈ references.usages →
      schema.directive? usage.directive = none →
      Blames schema references (.unknownDirective usage.directive)
  | argument {usage : DirectiveUsage} {definition : DirectiveDefinition} {entry : String × Value} :
      usage ∈ references.usages → schema.directive? usage.directive = some definition →
      entry ∈ usage.arguments → definition.argument? entry.1 = none →
      Blames schema references (.unknownArgument definition.name entry.1)
  | supplied {usage : DirectiveUsage} {entry : String × Value} {number : Binary64} :
      usage ∈ references.usages → entry ∈ usage.arguments → number ∈ entry.2.numbers →
      number.isFinite = false → Blames schema references (.unsupportedValue number)
  | default {value : Value} {number : Binary64} : value ∈ references.defaults →
      number ∈ value.numbers → number.isFinite = false →
      Blames schema references (.unsupportedValue number)
  | modifiers {type inner : TypeRef} : type ∈ references.types →
      .nonNull (.nonNull inner) ∈ type.layers →
      Blames schema references (.unsupportedTypeRef (.nonNull (.nonNull inner)))

/-- The fault is that a name has nothing behind it. -/
def RenderError.IsDangling : RenderError → Prop
  | .unknownType _ | .unknownDirective _ | .unknownArgument _ _ => True
  | .unsupportedValue _ | .unsupportedTypeRef _ => False

/-- Where all references can be written, only names can be at fault. -/
theorem Blames.isDangling {schema : Schema} {references : References} {fault : RenderError}
    (blames : Blames schema references fault) (writable : references.IsWritable) :
    fault.IsDangling := by
  cases blames with
  | type | directive | argument => exact trivial
  | supplied member entry inside infinite =>
      have finite := writable.supplied _ member _ entry _ inside
      exact absurd (finite.symm.trans infinite) nofun
  | default member inside infinite =>
      have finite := writable.defaults _ member _ inside
      exact absurd (finite.symm.trans infinite) nofun
  | modifiers member inside => exact writable.types _ member _ inside

section

variable {admitted : RenderError → Prop}

mutual

theorem failsOnly_literal (value : Value)
    (infinite : ∀ number ∈ value.numbers, number.isFinite = false →
      admitted (.unsupportedValue number)) : FailsOnly admitted (literal value) := by
  cases value with
  | boolean | int | string | enum | null => exact .ok _
  | float number =>
      unfold literal
      cases finite : number.isFinite with
      | true => exact .ok _
      | false => exact .error (infinite number List.mem_cons_self finite)
  | list items => exact (failsOnly_literals items infinite).bind_ok
  | object fields => exact (failsOnly_fieldLiterals fields infinite).bind_ok

theorem failsOnly_literals (items : List Value)
    (infinite : ∀ number ∈ Value.itemNumbers items, number.isFinite = false →
      admitted (.unsupportedValue number)) : FailsOnly admitted (literals items) := by
  cases items with
  | nil => exact .ok []
  | cons item rest =>
      obtain ⟨here, later⟩ := List.forall_mem_append.mp infinite
      exact (failsOnly_literal item here).bind fun _ _ => (failsOnly_literals rest later).bind_ok

theorem failsOnly_fieldLiterals (fields : List (String × Value))
    (infinite : ∀ number ∈ Value.fieldNumbers fields, number.isFinite = false →
      admitted (.unsupportedValue number)) : FailsOnly admitted (fieldLiterals fields) := by
  cases fields with
  | nil => exact .ok []
  | cons field rest =>
      obtain ⟨name, value⟩ := field
      obtain ⟨here, later⟩ := List.forall_mem_append.mp infinite
      exact (failsOnly_literal value here).bind fun _ _ =>
        (failsOnly_fieldLiterals rest later).bind_ok

end

theorem failsOnly_typeDisplay (type : TypeRef)
    (doubled : ∀ inner, .nonNull (.nonNull inner) ∈ type.layers →
      admitted (.unsupportedTypeRef (.nonNull (.nonNull inner)))) :
    FailsOnly admitted (typeDisplay type) := by
  induction type with
  | named name => exact .ok _
  | list inner ih =>
      exact (ih fun deeper inside => doubled deeper (List.mem_cons_of_mem _ inside)).bind_ok
  | nonNull inner ih =>
      have below := ih fun deeper inside => doubled deeper (List.mem_cons_of_mem _ inside)
      cases inner with
      | nonNull inner => exact .error (doubled inner List.mem_cons_self)
      | named | list => exact below.bind_ok

end

variable {schema : Schema} {references : References}

theorem failsOnly_typeLink {type : TypeRef} (style : String)
    (mentioned : schema.Mentions references type.innermost)
    (doubled : ∀ inner, .nonNull (.nonNull inner) ∈ type.layers → type ∈ references.types) :
    FailsOnly (Blames schema references) (typeLink schema style type) := by
  unfold typeLink
  dsimp only
  cases found : schema.type? type.innermost with
  | none => exact .error (.type mentioned (by simp [Schema.HasType, found]))
  | some definition =>
      exact (failsOnly_typeDisplay type fun inner inside =>
        .modifiers (doubled inner inside) inside).bind_ok

theorem failsOnly_memberTypeLink {type : TypeRef} (style : String)
    (member : type ∈ references.types) :
    FailsOnly (Blames schema references) (typeLink schema style type) :=
  failsOnly_typeLink style (.modified member rfl) fun _ _ => member

theorem failsOnly_namedTypeLink {name : String} (style : String)
    (mentioned : schema.Mentions references name) :
    FailsOnly (Blames schema references) (namedTypeLink schema style name) :=
  failsOnly_typeLink style mentioned fun _ inside => by simp [TypeRef.layers] at inside

theorem failsOnly_suppliedArguments {usage : DirectiveUsage} {definition : DirectiveDefinition}
    (member : usage ∈ references.usages)
    (found : schema.directive? usage.directive = some definition)
    {supplied : List (String × Value)} (inside : supplied ⊆ usage.arguments) :
    FailsOnly (Blames schema references) (suppliedArguments definition supplied) := by
  induction supplied with
  | nil => exact .ok []
  | cons entry rest ih =>
      obtain ⟨name, value⟩ := entry
      obtain ⟨here, later⟩ := List.cons_subset.mp inside
      unfold suppliedArguments
      cases declared : definition.argument? name with
      | none => exact .error (.argument member found here declared)
      | some argument =>
          dsimp only
          split
          · exact ih later
          · have shown : FailsOnly (Blames schema references) (suppliedArgument name value) :=
              (failsOnly_literal value fun _ => .supplied member here).bind_ok
            exact shown.bind fun _ _ => (ih later).bind_ok

theorem failsOnly_usage {usage : DirectiveUsage} (member : usage ∈ references.usages) :
    FailsOnly (Blames schema references) (Page.usage schema usage) := by
  unfold Page.usage
  cases found : schema.directive? usage.directive with
  | none => exact .error (.directive member found)
  | some definition =>
      refine (failsOnly_suppliedArguments member found (.refl _)).bind fun _ _ => ?_
      obtain ⟨link, linked⟩ := succeeds_directiveLink found
      rw [linked]
      exact .ok _

theorem failsOnly_usages {usages : List DirectiveUsage} (inside : usages ⊆ references.usages) :
    FailsOnly (Blames schema references) (Page.usages schema usages) := by
  induction usages with
  | nil => exact .ok []
  | cons first rest ih =>
      obtain ⟨here, later⟩ := List.cons_subset.mp inside
      exact (failsOnly_usage here).bind fun _ _ => (ih later).bind_ok

section

variable {α : Type} {description : α → Option String} {print : α → Except RenderError Section}
  {admitted : RenderError → Prop}

theorem failsOnly_members {list : List α}
    (each : ∀ member ∈ list, FailsOnly admitted (print member)) :
    FailsOnly admitted (members description print list) := by
  rw [members_eq]
  exact (FailsOnly.mapM each).bind_ok

end

theorem failsOnly_defaultValue {default : Option Value}
    (inside : default.toList ⊆ references.defaults) :
    FailsOnly (Blames schema references) (defaultValue default) := by
  cases default with
  | none => exact .ok []
  | some value =>
      exact (failsOnly_literal value fun _ => .default (inside List.mem_cons_self)).bind_ok

theorem failsOnly_argument {argument : Argument} (within : argument.references.Within references) :
    FailsOnly (Blames schema references) (Page.argument schema argument) := by
  refine (failsOnly_defaultValue within.defaults).bind fun _ _ => ?_
  refine (failsOnly_memberTypeLink _ (within.types List.mem_cons_self)).bind fun _ _ => ?_
  exact (failsOnly_usages within.usages).bind_ok

theorem failsOnly_argumentMembers {arguments : List Argument}
    (within : (References.collect Argument.references arguments).Within references) :
    FailsOnly (Blames schema references) (argumentMembers schema arguments) :=
  failsOnly_members fun argument member => failsOnly_argument (within.of_collect argument member)

theorem failsOnly_argumentList {arguments : List Argument}
    (within : (References.collect Argument.references arguments).Within references) :
    FailsOnly (Blames schema references) (argumentList schema arguments) := by
  unfold argumentList
  split
  · exact .ok []
  · exact (failsOnly_argumentMembers within).bind_ok

theorem failsOnly_field {field : Field} (within : field.references.Within references) :
    FailsOnly (Blames schema references) (Page.field schema field) := by
  obtain ⟨own, ofArguments⟩ := References.Within.of_append within
  refine (failsOnly_argumentList ofArguments).bind fun _ _ => ?_
  refine (failsOnly_memberTypeLink _ (own.types List.mem_cons_self)).bind fun _ _ => ?_
  exact (failsOnly_usages own.usages).bind_ok

theorem failsOnly_enumItem {item : EnumItem} (within : item.references.Within references) :
    FailsOnly (Blames schema references) (enumItem schema item) :=
  (failsOnly_usages within.usages).bind_ok

/-- A walk among what interfaces bring with them misses only what they bring. -/
theorem failsOnly_walk {visits : List Visit} {seen : List String}
    (brought : ∀ visit ∈ visits, schema.Brings references.interfaces visit.name) :
    FailsOnly (Blames schema references) (walk schema visits seen) := by
  fun_induction walk schema visits seen with
  | case1 => exact .ok []
  | case2 seen name rest ih => exact (ih (List.forall_mem_cons.mp brought).2).bind_ok
  | case3 seen name rest known ih => exact ih (List.forall_mem_cons.mp brought).2
  | case4 seen name rest new absent =>
      have here := (List.forall_mem_cons.mp brought).1
      exact .error (.type (.brought here) (by simp [Schema.HasType, absent]))
  | case5 seen name rest new definition found ih =>
      obtain ⟨here, later⟩ := List.forall_mem_cons.mp brought
      refine ih (List.forall_mem_append.mpr ⟨?_, List.forall_mem_cons.mpr ⟨here, later⟩⟩)
      intro visit member
      obtain ⟨inner, declared, rfl⟩ := List.mem_map.mp member
      exact .inherited here found declared

theorem failsOnly_flattenLinks {interfaces : List String}
    (inside : interfaces ⊆ references.interfaces) :
    FailsOnly (Blames schema references) (flattenLinks schema interfaces) := by
  have entered : ∀ visit ∈ interfaces.map Visit.enter,
      schema.Brings references.interfaces visit.name := by
    intro visit member
    obtain ⟨name, among, rfl⟩ := List.mem_map.mp member
    exact .declared (inside among)
  refine (failsOnly_walk entered).bind fun names flattened => .mapM fun name member => ?_
  have brought := (mem_flattenNames flattened name).mp member
  exact failsOnly_namedTypeLink _ (.brought (brought.mono inside))

theorem failsOnly_membersClause {members : List String} (inside : members ⊆ references.names) :
    FailsOnly (Blames schema references) (membersClause schema members) :=
  (FailsOnly.mapM fun _ member => failsOnly_namedTypeLink _ (.alone (inside member))).bind_ok

theorem failsOnly_typeContent (head usages : Fragment) {body : TypeBody}
    (within : body.references.Within references) :
    FailsOnly (Blames schema references) (typeContent schema head usages body) := by
  cases body with
  | object interfaces fields | interface interfaces fields =>
      obtain ⟨own, ofFields⟩ := References.Within.of_append within
      have clause : FailsOnly (Blames schema references) (implementsClause schema interfaces) :=
        (failsOnly_flattenLinks own.interfaces).bind_ok
      have shown : FailsOnly (Blames schema references) (fieldMembers schema fields) :=
        failsOnly_members fun field member => failsOnly_field (ofFields.of_collect field member)
      exact clause.bind fun _ _ => shown.bind_ok
  | inputObject fields => exact (failsOnly_argumentMembers within).bind_ok
  | enum items =>
      have shown : FailsOnly (Blames schema references) (enumMembers schema items) :=
        failsOnly_members fun item member => failsOnly_enumItem (within.of_collect item member)
      exact shown.bind_ok
  | union members => exact (failsOnly_membersClause within.names).bind_ok
  | scalar => exact .ok _

theorem failsOnly_typeSection {definition : TypeDefinition}
    (within : definition.references.Within references) :
    FailsOnly (Blames schema references) (typeSection schema definition) := by
  obtain ⟨own, ofBody⟩ := References.Within.of_append within
  exact (failsOnly_usages own.usages).bind fun _ _ => (failsOnly_typeContent _ _ ofBody).bind_ok

theorem failsOnly_declarationSection {declaration : Declaration}
    (within : declaration.references.Within references) :
    FailsOnly (Blames schema references) (declarationSection schema declaration) := by
  cases declaration with
  | type definition => exact failsOnly_typeSection within
  | directive definition => exact (failsOnly_argumentList within).bind_ok

theorem failsOnly_rootLine (operation : Operation)
    (inside : (schema.root? operation).toList ⊆ references.names) :
    FailsOnly (Blames schema references) (rootLine schema operation) := by
  unfold rootLine
  cases named : schema.root? operation with
  | none => exact .ok _
  | some name =>
      rw [named] at inside
      exact (failsOnly_namedTypeLink _ (.alone (inside List.mem_cons_self))).bind_ok

theorem failsOnly_schemaSection (within : schema.ownReferences.Within references) :
    FailsOnly (Blames schema references) (schemaSection schema) := by
  obtain ⟨query, others⟩ := List.cons_subset.mp within.names
  obtain ⟨mutation, subscription⟩ := List.append_subset.mp others
  have queryLine : FailsOnly (Blames schema references) (rootLine schema .query) :=
    failsOnly_rootLine .query (List.cons_subset.mpr ⟨query, List.nil_subset _⟩)
  refine (failsOnly_usages within.usages).bind fun _ _ => queryLine.bind fun _ _ => ?_
  exact (failsOnly_rootLine .mutation mutation).bind fun _ _ =>
    (failsOnly_rootLine .subscription subscription).bind_ok

theorem within_declaration {includeBuiltIns : Bool} {declaration : Declaration}
    (member : declaration ∈ declarations schema includeBuiltIns) :
    declaration.references.Within schema.references := by
  obtain ⟨_, ofDeclarations⟩ := References.Within.of_append (.refl schema.references)
  obtain ⟨ofTypes, ofDirectives⟩ := References.Within.of_append ofDeclarations
  rcases (mem_declarations.mp member).1 with ⟨type, inside, rfl⟩ | ⟨directive, inside, rfl⟩
  · exact ofTypes.of_collect type inside
  · exact ofDirectives.of_collect directive inside

/-- Whatever a schema is like, its page is refused only for something that it refers to. -/
theorem failsOnly_render (schema : Schema) (config : Config) :
    FailsOnly (Blames schema schema.references) (render schema config) := by
  obtain ⟨own, _⟩ := References.Within.of_append (.refl schema.references)
  have shown : FailsOnly (Blames schema schema.references)
      (sections schema config.includeBuiltIns) :=
    (failsOnly_schemaSection own).bind fun _ _ => FailsOnly.bind_ok (.mapM fun _ member =>
      failsOnly_declarationSection (within_declaration member))
  exact shown.bind_ok.bind_ok

/-- A schema from a document has a page, unless the document names something that is not there. -/
theorem render_dangling {source : String} {schema : Schema}
    (parsed : Sdl.parse source = .ok schema) (config : Config) :
    (∃ document, render schema config = .ok document) ∨ ∃ fault,
      render schema config = .error fault ∧ fault.IsDangling ∧
        Blames schema schema.references fault := by
  cases outcome : render schema config with
  | ok document => exact .inl ⟨document, rfl⟩
  | error fault =>
      have blames := failsOnly_render schema config fault outcome
      exact .inr ⟨fault, rfl, blames.isDangling (Sdl.isWritable_parse parsed), blames⟩

theorem render_dangling_directive : ∃ schema,
    Sdl.parse "schema @missing \x7b query: Query \x7d type Query" = .ok schema ∧
      render schema .default = .error (.unknownDirective "missing") ∧
        Blames schema schema.references (.unknownDirective "missing") := by
  obtain ⟨schema, parsed, refused⟩ : ∃ schema,
      Sdl.parse "schema @missing \x7b query: Query \x7d type Query" = .ok schema ∧
        render schema .default = .error (.unknownDirective "missing") := ⟨_, rfl, rfl⟩
  rcases render_dangling parsed .default with ⟨_, shown⟩ | ⟨fault, failed, _, blames⟩
  · cases refused.symm.trans shown
  · obtain ⟨⟩ := refused.symm.trans failed
    exact ⟨schema, parsed, refused, blames⟩

end GraphqlReference.Page
