import GraphqlReference.Proofs.Html.Arrangement
import GraphqlReference.Proofs.Page.Items
import GraphqlReference.Proofs.Page.Printing

namespace GraphqlReference.Page

open Html

section

variable {rules : Rules}

theorem closed_descriptionLine (piece : List Char) : Closed rules (descriptionLine piece) := by
  unfold descriptionLine
  dsimp only
  split
  · exact closed_blankLine
  · rename_i some
    have shown : Text.isVisible (Text.trimEnd (Text.dropFinalReturn piece)) = true :=
      Text.isVisible_trimEnd (by simpa using some)
    exact (filling_text (rules.visible shown)).closed_line

theorem closed_blockDelimiter : Closed rules blockDelimiter :=
  (filling_quotes (by decide)).closed_line

theorem opensLine_style {element : Element} {style : String}
    (other : ¬ (Tag.opening element [.style style]).write = lineOpening) :
    opensLine element [.style style] = false :=
  decide_eq_false other

theorem whole_textBlock (text : List Char) : Section.Whole rules (textBlock text) := by
  have lines : ∀ pieces : List (List Char),
      Section.Whole rules (pieces.map fun piece => .inline (descriptionLine piece)) := by
    intro pieces
    induction pieces with
    | nil => exact Section.whole_nil
    | cons piece rest ih => exact (closed_descriptionLine piece).whole_cons ih
  have delimiter : Closed rules blockDelimiter := closed_blockDelimiter
  have inner := (delimiter.whole_cons (lines (Text.lineFeedPieces text))).append delimiter.whole
  have allowed : rules.opens .division [.style "description"] :=
    rules.styled (by decide) (by decide)
  have block := inner.element allowed (opensLine_style (by decide))
  simpa only [textBlock_eq_tokens, List.cons_append, List.append_assoc, List.nil_append] using block

theorem whole_descriptionBlock (description : Option String) :
    Section.Whole rules (descriptionBlock description) := by
  unfold descriptionBlock
  split
  · exact Section.whole_nil
  · split
    · exact Section.whole_nil
    · exact whole_textBlock _

theorem whole_memberDescription (description : Option String) :
    Section.Whole rules (memberDescription description) := by
  unfold memberDescription
  split
  · exact Section.whole_nil
  · split
    · exact Section.whole_nil
    · split
      · exact whole_textBlock _
      · rename_i text _ _
        have line : Closed rules (Fragment.line [.quotes 1, .text text.toList, .quotes 1]) :=
          (filling_quoted Nat.one_pos text.toList).closed_line
        exact (line.filling.closed_division (by decide)).whole

theorem whole_item {content : Section} (whole : Section.Whole rules content) :
    Section.Whole rules (item content) :=
  whole.element (rules.styled (by decide) (by decide)) (opensLine_style (by decide))

theorem whole_members {α : Type} {description : α → Option String}
    {print : α → Except RenderError Section} {list : List α} {shown : Section}
    (printed : members description print list = .ok shown)
    (whole : ∀ member ∈ list, ∀ shown, print member = .ok shown → Section.Whole rules shown) :
    Section.Whole rules shown := by
  rw [members_eq] at printed
  obtain ⟨contents, printedAll, ⟨⟩⟩ := bind_eq_ok.mp printed
  refine Section.whole_flatten fun block among => ?_
  rcases mem_separated among with rfl | ⟨pair, inside, rfl⟩
  · exact Section.whole_emptyLine
  · obtain ⟨member, listed, here⟩ := mem_of_mapM printedAll (List.of_mem_zip inside).2
    exact whole_item (whole member listed pair.2 here)

theorem spaced_defaultValue {default : Option Value} {shown : Fragment}
    (printed : defaultValue default = .ok shown)
    (named : ∀ name ∈ default.elim [] Value.names, rules.shows name.toList) :
    Spaced rules shown := by
  cases default with
  | none =>
      obtain ⟨⟩ := printed
      exact spaced_nil
  | some value =>
      obtain ⟨text, inside, ⟨⟩⟩ := bind_eq_ok.mp printed
      have inner : Closed rules (Fragment.spanning "argument-value" text) :=
        (closed_literal inside named).filling.closed_spanning (by decide)
      exact closed_equals.spaced_spacer.append inner.spaced_spacer

variable {schema : Schema}

theorem whole_argument (permits : Permits rules schema) {argument : Argument} {shown : Section}
    (printed : Page.argument schema argument = .ok shown)
    (named : ∀ name ∈ argument.names, rules.shows name.toList) : Section.Whole rules shown := by
  obtain ⟨default, printedDefault, printed⟩ := bind_eq_ok.mp printed
  obtain ⟨link, printedLink, printed⟩ := bind_eq_ok.mp printed
  obtain ⟨usages, printedUsages, ⟨⟩⟩ := bind_eq_ok.mp printed
  obtain ⟨namedHere, namedInside⟩ := List.forall_mem_cons.mp named
  obtain ⟨namedDefault, namedUsages⟩ := List.forall_mem_append.mp namedInside
  have label : Closed rules (Fragment.span "argument-name" argument.name) :=
    closed_span (by decide) namedHere
  have type := (closed_typeLink permits (by decide) printedLink).spaced_spacer
  have line := ((((label.append closed_colon.spaced).append type).append
    (spaced_defaultValue printedDefault namedDefault)).append
    (spaced_usages permits printedUsages namedUsages))
  exact (whole_memberDescription argument.description).append line.whole

theorem whole_argumentMembers (permits : Permits rules schema) {arguments : List Argument}
    {shown : Section} (printed : argumentMembers schema arguments = .ok shown)
    (named : ∀ name ∈ arguments.flatMap Argument.names, rules.shows name.toList) :
    Section.Whole rules shown :=
  whole_members printed fun _ member _ printedMember => whole_argument permits printedMember
    fun _ namedMember => named _ (List.mem_flatMap_of_mem member namedMember)

theorem whole_argumentList (permits : Permits rules schema) {arguments : List Argument}
    {shown : Section} (printed : argumentList schema arguments = .ok shown)
    (named : ∀ name ∈ arguments.flatMap Argument.names, rules.shows name.toList) :
    Section.Whole rules shown := by
  unfold argumentList at printed
  split at printed
  · obtain ⟨⟩ := printed
    exact Section.whole_nil
  · obtain ⟨inner, printedMembers, ⟨⟩⟩ := bind_eq_ok.mp printed
    have allowed : rules.opens .division [.style "arguments offset-1"] :=
      rules.styled (by decide) (by decide)
    have block := (whole_argumentMembers permits printedMembers named).element allowed
      (opensLine_style (by decide))
    have list := closed_openingRound.whole_cons (block.append closed_closingRound.whole)
    simpa only [inline_span, List.cons_append, List.append_assoc, List.nil_append] using list

theorem whole_field (permits : Permits rules schema) {field : Field} {shown : Section}
    (printed : Page.field schema field = .ok shown)
    (named : ∀ name ∈ field.names, rules.shows name.toList) : Section.Whole rules shown := by
  obtain ⟨arguments, printedArguments, printed⟩ := bind_eq_ok.mp printed
  obtain ⟨link, printedLink, printed⟩ := bind_eq_ok.mp printed
  obtain ⟨usages, printedUsages, ⟨⟩⟩ := bind_eq_ok.mp printed
  obtain ⟨namedHere, namedInside⟩ := List.forall_mem_cons.mp named
  obtain ⟨namedArguments, namedUsages⟩ := List.forall_mem_append.mp namedInside
  have label : Closed rules (Fragment.span "field-name" field.name) :=
    closed_span (by decide) namedHere
  have type := (closed_typeLink permits (by decide) printedLink).spaced_spacer
  have line := (closed_colon.append type).append (spaced_usages permits printedUsages namedUsages)
  have labelled := (whole_memberDescription field.description).append label.whole
  have arguments := whole_argumentList permits printedArguments namedArguments
  exact (labelled.append arguments).append line.whole

theorem whole_fieldMembers (permits : Permits rules schema) {fields : List Field} {shown : Section}
    (printed : fieldMembers schema fields = .ok shown)
    (named : ∀ name ∈ fields.flatMap Field.names, rules.shows name.toList) :
    Section.Whole rules shown :=
  whole_members printed fun _ member _ printedMember => whole_field permits printedMember
    fun _ namedMember => named _ (List.mem_flatMap_of_mem member namedMember)

theorem whole_enumItem (permits : Permits rules schema) {item : EnumItem} {shown : Section}
    (printed : enumItem schema item = .ok shown)
    (named : ∀ name ∈ item.names, rules.shows name.toList) : Section.Whole rules shown := by
  obtain ⟨usages, printedUsages, ⟨⟩⟩ := bind_eq_ok.mp printed
  obtain ⟨namedHere, namedUsages⟩ := List.forall_mem_cons.mp named
  have label : Closed rules (Fragment.span "enum-item" item.name) :=
    closed_span (by decide) namedHere
  have line := label.append (spaced_usages permits printedUsages namedUsages)
  exact (whole_memberDescription item.description).append line.whole

theorem whole_enumMembers (permits : Permits rules schema) {items : List EnumItem}
    {shown : Section} (printed : enumMembers schema items = .ok shown)
    (named : ∀ name ∈ items.flatMap EnumItem.names, rules.shows name.toList) :
    Section.Whole rules shown :=
  whole_members printed fun _ member _ printedMember => whole_enumItem permits printedMember
    fun _ namedMember => named _ (List.mem_flatMap_of_mem member namedMember)

end

end GraphqlReference.Page
