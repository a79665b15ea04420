import GraphqlReference.Page.Order
import GraphqlReference.Proofs.Page.Members

namespace GraphqlReference.Page

open Html

/-- The rules allow the head of the section with this anchor. -/
structure Heads (rules : Rules) (anchor : String) : Prop where
  region : rules.opens .region [.identity anchor]
  selfLink : rules.opens .anchor [.style "self-link", .target anchor]

section

variable {rules : Rules}

theorem opensLine_region (attributes : List Attribute) : opensLine .region attributes = false := by
  obtain ⟨rest, name⟩ : ∃ rest, Element.region.tag.toList = 's' :: rest := ⟨_, rfl⟩
  have written : (Tag.opening .region attributes).write =
      '<' :: 's' :: (rest ++ attributes.flatMap Attribute.write ++ ['>']) := by
    simp [Tag.write, Tag.content, name]
  refine decide_eq_false fun same => ?_
  rw [written] at same
  exact absurd (List.cons.inj (List.cons.inj same).2).1 (by decide)

/-- A section with this anchor around whole elements. -/
def Framed (rules : Rules) (anchor : String) (markup : Section) : Prop :=
  ∃ content, Section.Whole rules content ∧
    markup = .opening [.opening .region [.identity anchor]] :: content ++ sectionEnd

theorem framed_section {anchor : String} (description : Option String) {content : Section}
    (whole : Section.Whole rules content) :
    Framed rules anchor (sectionHead anchor description ++ content ++ sectionEnd) :=
  ⟨_, (whole_descriptionBlock description).append whole, rfl⟩

theorem Framed.whole {anchor : String} {markup : Section} (framed : Framed rules anchor markup)
    (allowed : rules.opens .region [.identity anchor]) : Section.Whole rules markup := by
  obtain ⟨content, whole, rfl⟩ := framed
  exact whole.element allowed (opensLine_region _)

theorem closed_keyword {keyword : String} (visible : Text.isVisible keyword.toList = true) :
    Closed rules (Fragment.span "keyword" keyword) :=
  closed_mark (by decide) visible

theorem closed_selfLink {anchor keyword : String}
    (allowed : rules.opens .anchor [.style "self-link", .target anchor])
    (visible : Text.isVisible keyword.toList = true) : Closed rules (selfLink anchor keyword) :=
  (closed_keyword visible).filling.closed_element allowed

theorem closed_brace : Closed rules (Fragment.span "bracket-curly" "\x7b") :=
  closed_mark (by decide) (by decide)

theorem closed_closingBrace : Closed rules closingBrace :=
  (closed_mark (by decide) (by decide)).filling.closed_line

theorem whole_braced {head : Fragment} {content : Section} (closed : Closed rules head)
    (whole : Section.Whole rules content) : Section.Whole rules (braced head content) := by
  have allowed : rules.opens .division [.style "offset-1"] := rules.styled (by decide) (by decide)
  have block := whole.element allowed (opensLine_style (by decide))
  have opening := (closed.append closed_brace.spaced_spacer).filling.closed_line
  have last : Closed rules closingBrace := closed_closingBrace
  have lines := opening.whole_cons (block.append last.whole)
  simpa only [braced, inline_line, closingBrace, List.cons_append, List.append_assoc,
    List.nil_append] using lines

theorem joint_alternativeMark : Joint rules alternativeMark := by
  have mark : Closed rules (Fragment.span "vertical-line" "|") :=
    closed_mark (by decide) (by decide)
  exact mark.spaced_spacer.joint_spacer

theorem joint_conjunctionMark : Joint rules conjunctionMark := by
  have mark : Closed rules (Fragment.span "ampersand" "&") := closed_mark (by decide) (by decide)
  exact mark.spaced_spacer.joint_spacer

variable {schema : Schema}

/-- The line of an operation shows a link to its root, or that there is none. -/
theorem exists_target {operation : Operation} {shown : Fragment}
    (printed : rootLine schema operation = .ok shown) : ∃ target,
      ((∃ name, namedTypeLink schema "field-type" name = .ok target) ∨
        target = Fragment.span "null" "null") ∧
      shown = Fragment.division "line offset-1"
        (Fragment.span "field-name" operation.keyword ++ Fragment.span "colon" ":" ++
          .spacer :: target) := by
  unfold rootLine at printed
  dsimp only at printed
  split at printed
  · obtain ⟨target, printedTarget, ⟨⟩⟩ := bind_eq_ok.mp printed
    exact ⟨target, .inl ⟨_, printedTarget⟩, rfl⟩
  · obtain ⟨⟩ := printed
    exact ⟨_, .inr rfl, rfl⟩

theorem inline_rootLine {operation : Operation} {shown : Fragment}
    (printed : rootLine schema operation = .ok shown) :
    Markup.inline shown = [.inline shown] := by
  obtain ⟨target, _, rfl⟩ := exists_target printed
  rfl

theorem closed_rootLine (permits : Permits rules schema) {operation : Operation} {shown : Fragment}
    (printed : rootLine schema operation = .ok shown) : Closed rules shown := by
  obtain ⟨target, linked, rfl⟩ := exists_target printed
  have closed : Closed rules target := by
    rcases linked with ⟨name, printedTarget⟩ | rfl
    · exact closed_typeLink permits (by decide) printedTarget
    · exact closed_mark (by decide) (by decide)
  have keyword : Text.isVisible operation.keyword.toList = true := by
    cases operation <;> decide
  have label : Closed rules (Fragment.span "field-name" operation.keyword) :=
    closed_mark (by decide) keyword
  have line := (label.append closed_colon.spaced).append closed.spaced_spacer
  exact line.filling.closed_division (by decide)

theorem framed_schemaSection (permits : Permits rules schema)
    (allowed : rules.opens .anchor [.style "self-link", .target schemaAnchor]) {shown : Section}
    (printed : schemaSection schema = .ok shown) : Framed rules schemaAnchor shown := by
  obtain ⟨usages, printedUsages, printed⟩ := bind_eq_ok.mp printed
  obtain ⟨query, printedQuery, printed⟩ := bind_eq_ok.mp printed
  obtain ⟨mutation, printedMutation, printed⟩ := bind_eq_ok.mp printed
  obtain ⟨subscription, printedSubscription, ⟨⟩⟩ := bind_eq_ok.mp printed
  have self : Closed rules (selfLink schemaAnchor "schema") := closed_selfLink allowed (by decide)
  have named : ∀ name ∈ schema.usages.flatMap DirectiveUsage.names, rules.shows name.toList := by
    intro name member
    obtain ⟨usage, inside, here⟩ := List.mem_flatMap.mp member
    exact permits.named name (Schema.mem_names_of_usage inside here)
  have head := ((self.append (spaced_usages permits printedUsages named)).append
    closed_brace.spaced_spacer).filling.closed_line
  have last : Closed rules closingBrace := closed_closingBrace
  have lines := head.whole_cons ((closed_rootLine permits printedQuery).whole_cons
    ((closed_rootLine permits printedMutation).whole_cons
      ((closed_rootLine permits printedSubscription).whole_cons last.whole)))
  simpa only [inline_line, closingBrace, inline_rootLine printedQuery,
    inline_rootLine printedMutation, inline_rootLine printedSubscription, List.cons_append,
    List.append_assoc, List.nil_append] using framed_section schema.description lines

theorem spaced_implementsClause (permits : Permits rules schema) {interfaces : List String}
    {shown : Fragment} (printed : implementsClause schema interfaces = .ok shown) :
    Spaced rules shown := by
  obtain ⟨links, printedLinks, ⟨⟩⟩ := bind_eq_ok.mp printed
  obtain ⟨names, _, printedNames⟩ := bind_eq_ok.mp printedLinks
  cases links with
  | nil => exact spaced_nil
  | cons link rest =>
      have closed : ∀ part ∈ link :: rest, Closed rules part := by
        intro part member
        obtain ⟨name, _, printedLink⟩ := mem_of_mapM printedNames member
        exact closed_typeLink permits (by decide) printedLink
      have keyword : Closed rules (Fragment.span "keyword" "implements") :=
        closed_keyword (by decide)
      exact keyword.spaced_spacer.append
        (closed_join joint_conjunctionMark closed (List.cons_ne_nil link rest)).spaced_spacer

theorem spaced_membersClause (permits : Permits rules schema) {members : List String}
    {shown : Fragment} (printed : membersClause schema members = .ok shown) :
    Spaced rules shown := by
  obtain ⟨links, printedLinks, ⟨⟩⟩ := bind_eq_ok.mp printed
  cases links with
  | nil => exact spaced_nil
  | cons link rest =>
      have closed : ∀ part ∈ link :: rest, Closed rules part := by
        intro part member
        obtain ⟨name, _, printedLink⟩ := mem_of_mapM printedLinks member
        exact closed_typeLink permits (by decide) printedLink
      exact closed_equals.spaced_spacer.append
        (closed_join joint_alternativeMark closed (List.cons_ne_nil link rest)).spaced_spacer

theorem whole_typeContent (permits : Permits rules schema) {head usages : Fragment}
    {body : TypeBody} {shown : Section} (closed : Closed rules head) (spaced : Spaced rules usages)
    (printed : typeContent schema head usages body = .ok shown)
    (named : ∀ name ∈ body.names, rules.shows name.toList) : Section.Whole rules shown := by
  cases body with
  | object interfaces fields | interface interfaces fields =>
      obtain ⟨clause, printedClause, printed⟩ := bind_eq_ok.mp printed
      obtain ⟨members, printedMembers, ⟨⟩⟩ := bind_eq_ok.mp printed
      exact whole_braced
        ((closed.append (spaced_implementsClause permits printedClause)).append spaced)
        (whole_fieldMembers permits printedMembers named)
  | inputObject fields =>
      obtain ⟨members, printedMembers, ⟨⟩⟩ := bind_eq_ok.mp printed
      exact whole_braced (closed.append spaced) (whole_argumentMembers permits printedMembers named)
  | enum items =>
      obtain ⟨members, printedMembers, ⟨⟩⟩ := bind_eq_ok.mp printed
      exact whole_braced (closed.append spaced) (whole_enumMembers permits printedMembers named)
  | union members =>
      obtain ⟨clause, printedClause, ⟨⟩⟩ := bind_eq_ok.mp printed
      exact ((closed.append spaced).append
        (spaced_membersClause permits printedClause)).filling.closed_line.whole
  | scalar =>
      obtain ⟨⟩ := printed
      exact (closed.append spaced).filling.closed_line.whole

theorem framed_typeSection (permits : Permits rules schema) {definition : TypeDefinition}
    (declared : definition ∈ schema.types)
    (allowed : rules.opens .anchor [.style "self-link", .target (typeAnchor definition.name)])
    {shown : Section} (printed : typeSection schema definition = .ok shown) :
    Framed rules (typeAnchor definition.name) shown := by
  obtain ⟨usages, printedUsages, printed⟩ := bind_eq_ok.mp printed
  obtain ⟨content, printedContent, ⟨⟩⟩ := bind_eq_ok.mp printed
  have named : ∀ name ∈ definition.names, rules.shows name.toList := fun name member =>
    permits.named name (Schema.mem_names_of_type declared member)
  obtain ⟨namedHere, namedInside⟩ := List.forall_mem_cons.mp named
  obtain ⟨namedUsages, namedBody⟩ := List.forall_mem_append.mp namedInside
  have keyword : Text.isVisible definition.kind.keyword.toList = true := by
    cases definition.kind <;> decide
  have label : Closed rules (Fragment.span "typename" definition.name) :=
    closed_span (by decide) namedHere
  have head := (closed_selfLink allowed keyword).append label.spaced_spacer
  exact framed_section definition.description (whole_typeContent permits head
    (spaced_usages permits printedUsages namedUsages) printedContent namedBody)

theorem trailing_locationsClause (definition : DirectiveDefinition) :
    Trailing rules (locationsClause definition) := by
  have keyword : Closed rules (Fragment.span "keyword" "on") := closed_keyword (by decide)
  have start : Parted rules
      ((if definition.repeatable then .spacer :: Fragment.span "keyword" "repeatable" else []) ++
        .spacer :: Fragment.span "keyword" "on") := by
    cases definition.repeatable with
    | false => exact keyword.parted_spacer
    | true =>
        have repeatable : Closed rules (Fragment.span "keyword" "repeatable") :=
          closed_keyword (by decide)
        exact repeatable.parted_spacer.append keyword.spaced_spacer
  unfold locationsClause
  cases locations : definition.locations with
  | nil => exact start.trailing_spacer
  | cons location rest =>
      have closed : ∀ part ∈ (location :: rest).map fun location =>
          Fragment.span "location" location.keyword, Closed rules part := by
        intro part member
        obtain ⟨location, _, rfl⟩ := List.mem_map.mp member
        have visible : Text.isVisible location.keyword.toList = true := by
          cases location <;> decide
        exact closed_mark (by decide) visible
      exact (start.append (closed_join joint_alternativeMark closed
        (List.cons_ne_nil _ _)).spaced_spacer).trailing

theorem framed_directiveSection (permits : Permits rules schema)
    {definition : DirectiveDefinition} (declared : definition ∈ schema.directives)
    (allowed : rules.opens .anchor [.style "self-link", .target (directiveAnchor definition.name)])
    {shown : Section} (printed : directiveSection schema definition = .ok shown) :
    Framed rules (directiveAnchor definition.name) shown := by
  obtain ⟨arguments, printedArguments, ⟨⟩⟩ := bind_eq_ok.mp printed
  have named : ∀ name ∈ definition.names, rules.shows name.toList := fun name member =>
    permits.named name (Schema.mem_names_of_directive declared member)
  have self : Closed rules (selfLink (directiveAnchor definition.name) "directive") :=
    closed_selfLink allowed (by decide)
  have label : Closed rules (Fragment.span "typename" ("@" ++ definition.name)) :=
    closed_span (by decide) (shows_of_mem (c := '@') (by simp) (by decide))
  have line := Section.Whole.line (self.append label.spaced_spacer)
    (whole_argumentList permits printedArguments named) (trailing_locationsClause definition)
  simpa only [inline_selfLink, inline_locationsClause, List.cons_append, List.append_assoc,
    List.nil_append] using framed_section definition.description line

end

end GraphqlReference.Page
