import GraphqlReference.Page.Document
import GraphqlReference.Proofs.Html.Nesting
import GraphqlReference.Proofs.Page.Sections
import GraphqlReference.Sdl.Document

namespace GraphqlReference.Page

open Html

/-- A section that is linked under this anchor, whatever the rules are that allow what it holds. -/
structure IsSectionOf (schema : Schema) (anchor : String) (markup : Section) : Prop where
  begins : ∃ rest, markup = .opening [.opening .region [.identity anchor]] :: rest
  framed : ∀ rules : Rules, Permits rules schema →
    rules.opens .anchor [.style "self-link", .target anchor] → Framed rules anchor markup

theorem IsSectionOf.whole {schema : Schema} {anchor : String} {markup : Section}
    (part : IsSectionOf schema anchor markup) (rules : Rules) (permits : Permits rules schema)
    (heads : Heads rules anchor) : Section.Whole rules markup :=
  (part.framed rules permits heads.selfLink).whole heads.region

theorem mem_declarations_of_type {schema : Schema} {includeBuiltIns : Bool}
    {definition : TypeDefinition}
    (member : .type definition ∈ declarations schema includeBuiltIns) :
    definition ∈ schema.types := by
  simpa [declarations] using (List.mem_filter.mp member).1

theorem mem_declarations_of_directive {schema : Schema} {includeBuiltIns : Bool}
    {definition : DirectiveDefinition}
    (member : .directive definition ∈ declarations schema includeBuiltIns) :
    definition ∈ schema.directives := by
  simpa [declarations] using (List.mem_filter.mp member).1

section

variable {schema : Schema} {includeBuiltIns : Bool}

theorem isSectionOf_schemaSection {shown : Section} (printed : schemaSection schema = .ok shown) :
    IsSectionOf schema schemaAnchor shown where
  begins := by
    obtain ⟨_, _, printed⟩ := bind_eq_ok.mp printed
    obtain ⟨_, _, printed⟩ := bind_eq_ok.mp printed
    obtain ⟨_, _, printed⟩ := bind_eq_ok.mp printed
    obtain ⟨_, _, ⟨⟩⟩ := bind_eq_ok.mp printed
    exact ⟨_, rfl⟩
  framed _ permits allowed := framed_schemaSection permits allowed printed

theorem begins_declarationSection {declaration : Declaration} {shown : Section}
    (printed : declarationSection schema declaration = .ok shown) :
    ∃ rest, shown = .opening [.opening .region [.identity declaration.anchor]] :: rest := by
  cases declaration with
  | type definition =>
      obtain ⟨_, _, printed⟩ := bind_eq_ok.mp printed
      obtain ⟨_, _, ⟨⟩⟩ := bind_eq_ok.mp printed
      exact ⟨_, rfl⟩
  | directive definition =>
      obtain ⟨_, _, ⟨⟩⟩ := bind_eq_ok.mp printed
      exact ⟨_, rfl⟩

theorem isSectionOf_declarationSection {declaration : Declaration} {shown : Section}
    (member : declaration ∈ declarations schema includeBuiltIns)
    (printed : declarationSection schema declaration = .ok shown) :
    IsSectionOf schema declaration.anchor shown := by
  refine ⟨begins_declarationSection printed, fun _ permits allowed => ?_⟩
  cases declaration with
  | type definition =>
      exact framed_typeSection permits (mem_declarations_of_type member) allowed printed
  | directive definition =>
      exact framed_directiveSection permits (mem_declarations_of_directive member) allowed printed

theorem isSectionOf_sections {shown : List Section}
    (printed : sections schema includeBuiltIns = .ok shown) :
    List.Forall₂ (IsSectionOf schema) (anchors schema includeBuiltIns) shown := by
  obtain ⟨first, printedFirst, printed⟩ := bind_eq_ok.mp printed
  obtain ⟨more, printedMore, ⟨⟩⟩ := bind_eq_ok.mp printed
  refine .cons (isSectionOf_schemaSection printedFirst) ?_
  have related := mapM_eq_ok.mp printedMore
  rw [List.forall₂_map_left_iff]
  have declared : ∀ declaration ∈ declarations schema includeBuiltIns,
      declaration ∈ declarations schema includeBuiltIns := fun _ member => member
  exact ((List.forall₂_and_left _ _).mpr ⟨declared, related⟩).imp fun _ _ both =>
    isSectionOf_declarationSection both.1 both.2

/-- A page can be made if each section can. -/
theorem exists_render (config : Config) (first : ∃ shown, schemaSection schema = .ok shown)
    (types : ∀ definition ∈ schema.types, ∃ shown, typeSection schema definition = .ok shown)
    (directives : ∀ definition ∈ schema.directives,
      ∃ shown, directiveSection schema definition = .ok shown) :
    ∃ document, render schema config = .ok document := by
  obtain ⟨shown, printed⟩ := first
  have others : ∀ declaration ∈ declarations schema config.includeBuiltIns,
      ∃ shown, declarationSection schema declaration = .ok shown := by
    intro declaration member
    cases declaration with
    | type definition => exact types definition (mem_declarations_of_type member)
    | directive definition => exact directives definition (mem_declarations_of_directive member)
  obtain ⟨more, printedMore⟩ := succeeds_mapM.mpr others
  have whole : sections schema config.includeBuiltIns = .ok (shown :: more) :=
    bind_eq_ok.mpr ⟨shown, printed, bind_eq_ok.mpr ⟨more, printedMore, rfl⟩⟩
  have texts : fragments schema config = .ok ((shown :: more).map Section.render) :=
    bind_eq_ok.mpr ⟨_, whole, rfl⟩
  exact ⟨_, bind_eq_ok.mpr ⟨_, texts, rfl⟩⟩

variable {rules : Rules}

/-- Sections with their layout, in one fragment. -/
def laidOut (list : List Section) : Fragment :=
  Fragment.join Fragment.emptyLine (list.map (Section.laidOut 0 false))

theorem write_laidOut (list : List Section) :
    (laidOut list).write = Fragment.emptyLine.write.intercalate (list.map Section.render) := by
  induction list with
  | nil => rfl
  | cons markup rest ih =>
      have written := Section.write_laidOut 0 false markup
      cases rest with
      | nil => exact written.trans List.intercalate_singleton.symm
      | cons next rest =>
          have split : laidOut (markup :: next :: rest) =
              Section.laidOut 0 false markup ++ Fragment.emptyLine ++ laidOut (next :: rest) := rfl
          rw [split, Fragment.write_append, Fragment.write_append, written, ih]
          exact List.intercalate_cons_cons.symm

theorem laidOut_sections {list : List Section}
    (whole : ∀ markup ∈ list, Section.Whole rules markup) :
    ∃ shown, Laid rules ⟨[], .bare false⟩ (laidOut list) shown ⟨[], .bare false⟩ ∧
      ((∀ text, rules.shows text → Text.isVisible text = true) →
        shown.write = Fragment.blankLine.write.intercalate (list.map Section.settled)) := by
  induction list with
  | nil => exact ⟨[], .nil, fun _ => rfl⟩
  | cons markup rest ih =>
      obtain ⟨wholeFirst, wholeRest⟩ := List.forall_mem_cons.mp whole
      obtain ⟨shown, flow, settled⟩ := (wholeFirst []).laidOut 0 false
      cases rest with
      | nil => exact ⟨shown, flow, fun visible =>
          (settled visible).trans List.intercalate_singleton.symm⟩
      | cons next rest =>
          obtain ⟨shown', flow', settled'⟩ := ih wholeRest
          have split : laidOut (markup :: next :: rest) =
              Section.laidOut 0 false markup ++ (Fragment.emptyLine ++ laidOut (next :: rest)) :=
            List.append_assoc _ _ _
          refine ⟨shown ++ (Fragment.blankLine ++ shown'),
            split ▸ flow.append (.emptyLine rfl flow'), fun visible => ?_⟩
          rw [Fragment.write_append, Fragment.write_append, settled visible, settled' visible]
          exact (List.append_assoc _ _ _).symm.trans List.intercalate_cons_cons.symm

theorem laid_sections {list : List Section} (whole : ∀ markup ∈ list, Section.Whole rules markup) :
    ∃ laid shown, Laid rules ⟨[], .bare false⟩ laid shown ⟨[], .bare false⟩ ∧
      laid.write = Fragment.emptyLine.write.intercalate (list.map Section.render) ∧
      ((∀ text, rules.shows text → Text.isVisible text = true) →
        shown.write = Fragment.blankLine.write.intercalate (list.map Section.settled)) := by
  obtain ⟨shown, flow, settled⟩ := laidOut_sections whole
  exact ⟨_, shown, flow, write_laidOut list, settled⟩

end

/-- The rules of a page that links anything, with these texts alone between two tags. -/
def openRules (shows : List Char → Prop)
    (visible : ∀ {text}, Text.isVisible text = true → shows text) : Rules where
  opens _ attributes := attributes.all Attribute.isPlain = true
  shows
  plain allowed := allowed
  styled _ plain := by simpa using plain
  visible

theorem openRules_permits {shows : List Char → Prop}
    {visible : ∀ {text}, Text.isVisible text = true → shows text} {schema : Schema}
    (named : ∀ name ∈ schema.names, shows name.toList) :
    Permits (openRules shows visible) schema where
  reference plain _ := isPlain_reference _ plain
  named

theorem openRules_heads {shows : List Char → Prop}
    {visible : ∀ {text}, Text.isVisible text = true → shows text} (anchor : String) :
    Heads (openRules shows visible) anchor where
  region := rfl
  selfLink := rfl

theorem whole_sections {shows : List Char → Prop}
    (visible : ∀ {text}, Text.isVisible text = true → shows text) {schema : Schema}
    {includeBuiltIns : Bool} {list : List Section}
    (printed : sections schema includeBuiltIns = .ok list)
    (named : ∀ name ∈ schema.names, shows name.toList) :
    ∀ markup ∈ list, Section.Whole (openRules shows visible) markup := by
  intro markup member
  obtain ⟨anchor, _, part⟩ := mem_of_forall₂ (isSectionOf_sections printed) member
  exact part.whole _ (openRules_permits named) (openRules_heads anchor)

/-- The schema of a document with a single empty type. -/
def querySchema : Schema where
  description := none
  query := "Query"
  mutation := none
  subscription := none
  usages := []
  types := BuiltIn.scalars ++ [⟨"Query", none, .user, [], .object [] []⟩]
  directives := BuiltIn.directives

theorem parse_querySchema : Sdl.parse "type Query" = .ok querySchema := by
  rfl

theorem implementsClause_nil (schema : Schema) : implementsClause schema [] = .ok [] := by
  have names : flattenNames schema [] = .ok [] := by
    rw [flattenNames, List.map_nil, walk]
  exact bind_eq_ok.mpr ⟨[], bind_eq_ok.mpr ⟨[], names, rfl⟩, rfl⟩

/-- A schema with a single empty type, which is the root of queries. -/
def emptyTypeSchema (name : String) : Schema where
  description := none
  query := name
  mutation := none
  subscription := none
  usages := []
  types := BuiltIn.scalars ++ [⟨name, none, .user, [], .object [] []⟩]
  directives := BuiltIn.directives

theorem exists_render_emptyType {schema : Schema} {name : String} {description : Option String}
    (types : schema.types = BuiltIn.scalars ++ [⟨name, description, .user, [], .object [] []⟩])
    (directives : schema.directives = BuiltIn.directives)
    (first : ∃ shown, schemaSection schema = .ok shown) (config : Config) :
    ∃ document, render schema config = .ok document := by
  have scalarSections : ∀ definition ∈ BuiltIn.scalars,
      ∃ shown, typeSection schema definition = .ok shown := by
    repeat' first | exact ⟨_, rfl⟩ | refine List.forall_mem_cons.mpr ⟨?_, ?_⟩
    exact fun _ member => absurd member List.not_mem_nil
  have directiveSections : ∀ definition ∈ BuiltIn.directives,
      ∃ shown, directiveSection schema definition = .ok shown := by
    obtain ⟨_, _, _, _, _, _, _⟩ := schema
    subst types
    repeat' first | exact ⟨_, rfl⟩ | refine List.forall_mem_cons.mpr ⟨?_, ?_⟩
    exact fun _ member => absurd member List.not_mem_nil
  refine exists_render config first ?_ (directives ▸ directiveSections)
  rw [types]
  refine List.forall_mem_append.mpr ⟨scalarSections, List.forall_mem_singleton.mpr ?_⟩
  have clause := implementsClause_nil schema
  exact ⟨_, bind_eq_ok.mpr ⟨[], rfl, bind_eq_ok.mpr ⟨_, bind_eq_ok.mpr ⟨[], clause, rfl⟩, rfl⟩⟩⟩

theorem exists_render_emptyTypeSchema {name : String}
    (first : ∃ shown, schemaSection (emptyTypeSchema name) = .ok shown) (config : Config) :
    ∃ document, render (emptyTypeSchema name) config = .ok document :=
  exists_render_emptyType rfl rfl first config

theorem exists_render_querySchema (config : Config) :
    ∃ document, render querySchema config = .ok document :=
  exists_render_emptyTypeSchema ⟨_, rfl⟩ config

end GraphqlReference.Page
