import GraphqlReference.Proofs.Page.Anchors
import GraphqlReference.Proofs.Page.Searching

namespace GraphqlReference.Page

/-!
The root types that the panel of a page has buttons for: those that are not built in. In the first
section, nothing but the lines of the root operations can be taken for one of these lines.
-/

open Html

/-- The link to the type of a root, unless that type is built in. -/
def rootLinkOf (schema : Schema) (operation : Operation) : Option RootLink := do
  let name ← schema.root? operation
  let definition ← schema.type? name
  if definition.isBuiltIn then none else some ⟨operation, escape (typeAnchor name).toList⟩

theorem rootLinkOf_eq_some {schema : Schema} {operation : Operation} {link : RootLink} :
    rootLinkOf schema operation = some link ↔ ∃ name definition,
      schema.root? operation = some name ∧ schema.type? name = some definition ∧
        definition.isBuiltIn = false ∧ link = ⟨operation, escape (typeAnchor name).toList⟩ := by
  unfold rootLinkOf
  simp only [Option.bind_eq_bind, Option.bind_eq_some_iff]
  constructor
  · rintro ⟨name, set, definition, found, linked⟩
    split at linked
    · cases linked
    · rename_i user
      obtain ⟨⟩ := linked
      exact ⟨name, definition, set, found, eq_false_of_ne_true user, rfl⟩
  · rintro ⟨name, definition, set, found, user, rfl⟩
    exact ⟨name, set, definition, found, by rw [user]; rfl⟩

/-- The line of a root operation around what it names. -/
theorem Tells.rootLine {operation : Operation} {element : Element} {attributes : List Attribute}
    {links : List RootLink}
    (tells : Tells (operationLabel operation ++ [.opening element attributes]) links)
    (content : List Char) :
    Tells (Fragment.division "line offset-1" (Fragment.span "field-name" operation.keyword ++
      Fragment.span "colon" ":" ++ .spacer :: .opening element attributes ::
        [.text content, .closing element])) links := by
  have opening : Tells [.opening .division [.style "line offset-1"]] [] :=
    tells_piece (by decide) (by decide)
  have ending : Silent [.text content, .closing element, .closing .division] := by
    simp [Silent, isSilent, Piece.isPlain, isLabel]
  have whole := (opening.append tells).append ending.tells
  simpa [operationLabel, Fragment.division] using whole

theorem tells_rootLine {schema : Schema} {operation : Operation} {shown : Fragment}
    (printed : rootLine schema operation = .ok shown) :
    Tells shown (rootLinkOf schema operation).toList := by
  unfold rootLine at printed
  unfold rootLinkOf
  cases root : schema.root? operation with
  | none =>
      rw [root] at printed
      obtain ⟨⟩ := printed
      have label : Tells (operationLabel operation ++ [.opening .span [.style "null"]]) [] :=
        tells_label operation (by decide) (by decide) fun _ => rfl
      exact label.rootLine "null".toList
  | some name =>
      rw [root] at printed
      obtain ⟨target, printedTarget, ⟨⟩⟩ := bind_eq_ok.mp printed
      unfold namedTypeLink typeLink at printedTarget
      dsimp only [TypeRef.innermost] at printedTarget
      rw [Option.bind_eq_bind, Option.bind_some]
      cases found : schema.type? name with
      | none =>
          rw [found] at printedTarget
          cases printedTarget
      | some definition =>
          rw [found] at printedTarget
          obtain ⟨text, ⟨⟩, ⟨⟩⟩ := bind_eq_ok.mp printedTarget
          let title := definition.description.getD ""
          rw [Option.bind_eq_bind, Option.bind_some]
          cases builtIn : definition.isBuiltIn with
          | true =>
              have label : Tells (operationLabel operation ++
                  [.opening .anchor [.style "field-type", .title title]]) [] :=
                tells_label operation rfl rfl fun _ => rfl
              exact label.rootLine name.toList
          | false =>
              have shown : (typeAnchor name).toList ≠ [] := by simp [typeAnchor_toList]
              exact (tells_target operation title shown).rootLine name.toList

section

variable {first second content : Fragment}

theorem Silent.append (silent : Silent first) (silent' : Silent second) :
    Silent (first ++ second) :=
  List.forall_mem_append.mpr ⟨silent, silent'⟩

theorem Silent.cons {piece : Piece} (here : isSilent piece = true) (silent : Silent content) :
    Silent (piece :: content) :=
  List.forall_mem_cons.mpr ⟨here, silent⟩

theorem silent_text (text : List Char) : Silent [.text text] :=
  List.forall_mem_singleton.mpr rfl

theorem Silent.element {element : Element} {attributes : List Attribute} (silent : Silent content)
    (quiet : isSilent (.opening element attributes) = true) :
    Silent (.opening element attributes :: content ++ [.closing element]) :=
  (silent.cons quiet).append (List.forall_mem_singleton.mpr rfl)

theorem silent_span {style : String} (quiet : isSilent (.opening .span [.style style]) = true)
    (text : String) : Silent (Fragment.span style text) :=
  (silent_text text.toList).element quiet

theorem silent_join (silent : Silent first) {parts : List Fragment}
    (silentParts : ∀ part ∈ parts, Silent part) : Silent (Fragment.join first parts) := by
  induction parts with
  | nil => exact fun _ member => absurd member List.not_mem_nil
  | cons part rest ih =>
      obtain ⟨here, behind⟩ := List.forall_mem_cons.mp silentParts
      cases rest with
      | nil => exact here
      | cons next rest => exact (here.append silent).append (ih behind)

theorem silent_composite {style opening closing : String} {parts : List Fragment}
    (quiet : isSilent (.opening .span [.style style]) = true)
    (silent : ∀ part ∈ parts, Silent part) : Silent (composite style opening closing parts) := by
  have inner : Silent (if parts.isEmpty then []
      else Fragment.spanning "value" (.join (.span "comma" ",") parts)) := by
    split
    · exact fun _ member => absurd member List.not_mem_nil
    · exact (silent_join (silent_span (by decide) ",") silent).element (by decide)
  exact ((silent_span quiet opening).append inner).append (silent_span quiet closing)

end

mutual

theorem silent_literal {value : Value} {shown : Fragment} (printed : literal value = .ok shown) :
    Silent shown := by
  cases value with
  | boolean value =>
      obtain ⟨⟩ := printed
      cases value <;> exact (silent_text _).element (by decide)
  | int | string | enum | null =>
      obtain ⟨⟩ := printed
      exact (silent_text _).element (by decide)
  | float number =>
      unfold literal at printed
      split at printed
      · obtain ⟨⟩ := printed
        exact (silent_text _).element (by decide)
      · cases printed
  | list items =>
      obtain ⟨parts, printedParts, ⟨⟩⟩ := bind_eq_ok.mp printed
      exact silent_composite (by decide) (silent_literals printedParts)
  | object fields =>
      obtain ⟨parts, printedParts, ⟨⟩⟩ := bind_eq_ok.mp printed
      exact silent_composite (by decide) (silent_fieldLiterals printedParts)

theorem silent_literals {values : List Value} {parts : List Fragment}
    (printed : literals values = .ok parts) : ∀ part ∈ parts, Silent part := by
  cases values with
  | nil =>
      obtain ⟨⟩ := printed
      exact fun _ member => absurd member List.not_mem_nil
  | cons item rest =>
      obtain ⟨first, printedFirst, printed⟩ := bind_eq_ok.mp printed
      obtain ⟨more, printedMore, ⟨⟩⟩ := bind_eq_ok.mp printed
      exact List.forall_mem_cons.mpr ⟨silent_literal printedFirst, silent_literals printedMore⟩

theorem silent_fieldLiterals {fields : List (String × Value)} {parts : List Fragment}
    (printed : fieldLiterals fields = .ok parts) : ∀ part ∈ parts, Silent part := by
  cases fields with
  | nil =>
      obtain ⟨⟩ := printed
      exact fun _ member => absurd member List.not_mem_nil
  | cons field rest =>
      obtain ⟨name, value⟩ := field
      obtain ⟨shown, printedValue, printed⟩ := bind_eq_ok.mp printed
      obtain ⟨more, printedMore, ⟨⟩⟩ := bind_eq_ok.mp printed
      have label : Silent (Fragment.span "value-name" name ++ Fragment.span "colon" ":") :=
        (silent_span (by decide) name).append (silent_span (by decide) ":")
      exact List.forall_mem_cons.mpr
        ⟨label.append (silent_literal printedValue), silent_fieldLiterals printedMore⟩

end

theorem silent_suppliedArguments {definition : DirectiveDefinition}
    {supplied : List (String × Value)} {parts : List Fragment}
    (printed : suppliedArguments definition supplied = .ok parts) :
    ∀ part ∈ parts, Silent part := by
  intro part member
  obtain ⟨entry, _, _, shown⟩ := mem_of_suppliedArguments printed member
  obtain ⟨text, inside, ⟨⟩⟩ := bind_eq_ok.mp shown
  have label : Silent (Fragment.span "directive-usage-name" entry.1 ++ Fragment.span "colon" ":") :=
    (silent_span (by decide) entry.1).append (silent_span (by decide) ":")
  have content : Silent (.spacer :: Fragment.spanning "directive-usage-value" text) :=
    ((silent_literal inside).element (by decide)).cons rfl
  exact label.append content

theorem silent_parenthesized {parts : List Fragment} (silent : ∀ part ∈ parts, Silent part) :
    Silent (parenthesized parts) := by
  unfold parenthesized
  split
  · exact fun _ member => absurd member List.not_mem_nil
  · have comma : Silent (Fragment.span "comma" "," ++ [.spacer]) := by decide
    exact ((silent_span (by decide) "(").append (silent_join comma silent)).append
      (silent_span (by decide) ")")

theorem isLabel_anchor (attributes : List Attribute) :
    isLabel (.opening .anchor attributes) = false := by
  have different : (Tag.opening .anchor attributes).write ≠ labelOpening := by
    obtain ⟨rest, label⟩ : ∃ rest, labelOpening = '<' :: 's' :: rest := ⟨_, rfl⟩
    intro same
    rw [label] at same
    exact absurd (List.cons.inj (List.cons.inj same).2).1 (by decide : 'a' ≠ 's')
  exact decide_eq_false different

theorem silent_directiveLink {schema : Schema} {name : String} {shown : Fragment}
    (printed : directiveLink schema name = .ok shown) : Silent shown := by
  unfold directiveLink at printed
  split at printed
  · cases printed
  · obtain ⟨⟩ := printed
    refine (silent_text _).element (Bool.and_eq_true_iff.mpr ⟨?_, ?_⟩)
    · exact isPlain_reference _ (by decide)
    · rw [isLabel_anchor]
      rfl

theorem silent_usage {schema : Schema} {usage : DirectiveUsage} {shown : Fragment}
    (printed : Page.usage schema usage = .ok shown) : Silent shown := by
  unfold Page.usage at printed
  split at printed
  · cases printed
  · obtain ⟨parts, printedArguments, printed⟩ := bind_eq_ok.mp printed
    obtain ⟨link, printedLink, ⟨⟩⟩ := bind_eq_ok.mp printed
    refine ((silent_directiveLink printedLink).cons rfl).append ?_
    exact silent_parenthesized (silent_suppliedArguments printedArguments)

theorem silent_usages {schema : Schema} {usages : List DirectiveUsage} {shown : Fragment}
    (printed : Page.usages schema usages = .ok shown) : Silent shown := by
  induction usages generalizing shown with
  | nil =>
      obtain ⟨⟩ := printed
      exact fun _ member => absurd member List.not_mem_nil
  | cons first rest ih =>
      obtain ⟨text, printedFirst, printed⟩ := bind_eq_ok.mp printed
      obtain ⟨more, printedMore, ⟨⟩⟩ := bind_eq_ok.mp printed
      exact (silent_usage printedFirst).append (ih printedMore)

/-- Between other tokens and with any layout, a section tells of these root types. -/
def Lists (markup : Section) (links : List RootLink) : Prop :=
  ∀ depth started, Tells (Section.laidOut depth started markup) links

theorem exists_laidOut_append (depth : Nat) (started : Bool) (first second : Section) :
    ∃ depth' started', Section.laidOut depth started (first ++ second) =
      Section.laidOut depth started first ++ Section.laidOut depth' started' second := by
  induction first generalizing depth started with
  | nil => exact ⟨depth, started, rfl⟩
  | cons token rest ih =>
      obtain ⟨depth', started', split⟩ := ih (token.depthAfter (token.depth depth)) _
      refine ⟨depth', started', ?_⟩
      rw [List.cons_append, Section.laidOut, Section.laidOut, split, List.cons_append,
        List.append_assoc]

section

variable {first second markup : Section} {links links' : List RootLink}

theorem Lists.append (lists : Lists first links) (lists' : Lists second links') :
    Lists (first ++ second) (links ++ links') := by
  intro depth started
  obtain ⟨depth', started', split⟩ := exists_laidOut_append depth started first second
  rw [split]
  exact (lists depth started).append (lists' depth' started')

theorem Tells.lists {token : Token Piece} (tells : Tells token.content links) :
    Lists [token] links := by
  intro depth started
  have layout : Tells [.text (layout (token.depth depth) started)] [] := tells_piece rfl rfl
  have whole := layout.append tells
  rwa [← List.append_nil token.content] at whole

theorem Tells.inline {content : Fragment} (tells : Tells content links) :
    Lists [.inline content] links :=
  Tells.lists tells

theorem lists_nothing (silent : ∀ token ∈ markup, Silent token.content) : Lists markup [] := by
  induction markup with
  | nil => exact fun _ _ => tells_nil
  | cons token rest ih =>
      obtain ⟨here, behind⟩ := List.forall_mem_cons.mp silent
      exact here.tells.lists.append (ih behind)

end

theorem silent_descriptionBlock (description : Option String) :
    ∀ token ∈ descriptionBlock description, Silent token.content := by
  have none : ∀ token ∈ ([] : Section), Silent token.content := fun _ member =>
    absurd member List.not_mem_nil
  unfold descriptionBlock
  split
  · exact none
  · split
    · exact none
    · have delimiter : Silent blockDelimiter := by decide
      rw [textBlock_eq_tokens]
      refine List.forall_mem_append.mpr ⟨List.forall_mem_cons.mpr ⟨by decide,
        List.forall_mem_cons.mpr ⟨delimiter, fun token member => ?_⟩⟩,
        List.forall_mem_cons.mpr ⟨delimiter, List.forall_mem_singleton.mpr (by decide)⟩⟩
      obtain ⟨piece, _, rfl⟩ := List.mem_map.mp member
      simp only [Token.content, descriptionLine]
      split
      · decide
      · exact (silent_text _).element (by decide)

theorem lists_schemaSection {schema : Schema} {shown : Section}
    (printed : schemaSection schema = .ok shown) :
    Lists shown ([Operation.query, .mutation, .subscription].filterMap (rootLinkOf schema)) := by
  obtain ⟨usages, printedUsages, printed⟩ := bind_eq_ok.mp printed
  obtain ⟨query, printedQuery, printed⟩ := bind_eq_ok.mp printed
  obtain ⟨mutation, printedMutation, printed⟩ := bind_eq_ok.mp printed
  obtain ⟨subscription, printedSubscription, ⟨⟩⟩ := bind_eq_ok.mp printed
  have head : Lists (sectionHead schemaAnchor schema.description) [] :=
    lists_nothing (List.forall_mem_cons.mpr ⟨by decide, silent_descriptionBlock _⟩)
  have self : Silent (selfLink schemaAnchor "schema") := by decide
  have brace : Silent (.spacer :: Fragment.span "bracket-curly" "\x7b") := by decide
  have line : Silent (Fragment.line (selfLink schemaAnchor "schema" ++ usages ++
      .spacer :: Fragment.span "bracket-curly" "\x7b")) :=
    ((self.append (silent_usages printedUsages)).append brace).element (by decide)
  have ending : Lists (.inline closingBrace :: sectionEnd) [] :=
    lists_nothing (by decide)
  have roots := (tells_rootLine printedQuery).inline.append
    ((tells_rootLine printedMutation).inline.append (tells_rootLine printedSubscription).inline)
  have whole := (head.append line.tells.inline).append (roots.append ending)
  have links : ∀ operation rest, (operation :: rest).filterMap (rootLinkOf schema) =
      (rootLinkOf schema operation).toList ++ rest.filterMap (rootLinkOf schema) := by
    intro operation rest
    cases link : rootLinkOf schema operation <;> simp [link]
  rw [links, links, links, List.filterMap_nil]
  simpa only [inline_line, closingBrace, inline_rootLine printedQuery,
    inline_rootLine printedMutation, inline_rootLine printedSubscription, List.cons_append,
    List.append_assoc, List.nil_append, List.append_nil] using whole

/-- The search finds the roots whose types are not built in. -/
theorem rootLinks_schemaSection {schema : Schema} {shown : Section}
    (printed : schemaSection schema = .ok shown) :
    rootLinks (closeGaps shown.render) =
      [Operation.query, .mutation, .subscription].filterMap (rootLinkOf schema) := by
  have permits : Permits (openRules (fun _ => True) fun _ => trivial) schema :=
    openRules_permits fun _ _ => trivial
  have whole := (isSectionOf_schemaSection printed).whole _ permits (openRules_heads _)
  obtain ⟨_, flow, _⟩ := (whole []).laidOut 0 false
  have clean := Fragment.isClean_cutFrom isRun_nil flow.isPlain
  have written : (Fragment.cutFrom [] (Section.laidOut 0 false shown)).write = shown.render := by
    rw [Fragment.write_cutFrom, Section.write_laidOut]
    rfl
  obtain ⟨run, behindTag, clear, found⟩ := lists_schemaSection printed 0 false [] false [] isRun_nil
  have last : rootLinksBehind 0 (run ++ []) = [] := rootLinksBehind_run clear.less []
  rw [← written, closeGaps_write clean, rootLinks]
  rw [List.append_nil] at found
  rw [found]
  simpa [Fragment.cutFrom, Cut.mapGaps, Cut.write] using last

end GraphqlReference.Page
