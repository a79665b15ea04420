import GraphqlReference.Proofs.Html.Finished
import GraphqlReference.Proofs.Html.Region
import GraphqlReference.Proofs.Page.Links
import GraphqlReference.Proofs.Page.Nesting
import GraphqlReference.Proofs.Page.Panel
import GraphqlReference.Proofs.Sdl.RootNames

namespace GraphqlReference.Page

/-!
Where the buttons of a page lead. The target of a root type is taken from a text in which it is
escaped already, and the button escapes it once more. So the section of a root type is missed if
escaping changes the name of that type.
-/

open Html

/-- The opening tags of a page with buttons that lead to these targets. -/
inductive PageTag (schema : Schema) (includeBuiltIns : Bool) (targets : List String) :
    Element → List Attribute → Prop
  | inSection {own : String} {element : Element} {attributes : List Attribute} :
      own ∈ anchors schema includeBuiltIns → SectionTag schema own element attributes →
      PageTag schema includeBuiltIns targets element attributes
  | button {target title : String} : target ∈ targets →
      PageTag schema includeBuiltIns targets .anchor
        [.style "floating-button", .target target, .title title]

section

variable {schema : Schema} {includeBuiltIns : Bool} {targets : List String}

def pageRules (schema : Schema) (includeBuiltIns : Bool) (targets : List String) : Rules where
  opens := PageTag schema includeBuiltIns targets
  shows _ := True
  plain tag := by
    cases tag with
    | inSection _ inner => exact inner.isPlain
    | button => rfl
  styled _ plain := .inSection List.mem_cons_self (.styled plain)
  visible _ := trivial

theorem pageRules_permits : Permits (pageRules schema includeBuiltIns targets) schema where
  reference plain linked := .inSection List.mem_cons_self (.reference plain linked)
  named _ _ := trivial

theorem pageRules_heads {anchor : String} (known : anchor ∈ anchors schema includeBuiltIns) :
    Heads (pageRules schema includeBuiltIns targets) anchor where
  region := .inSection known .region
  selfLink := .inSection known .selfLink

theorem PageTag.target {element : Element} {earlier later : List Attribute} {target : String}
    (tag : PageTag schema includeBuiltIns targets element (earlier ++ .target target :: later)) :
    target ∈ anchors schema includeBuiltIns ∨ target ∈ targets := by
  generalize same : earlier ++ Attribute.target target :: later = attributes at tag
  cases tag with
  | inSection known inner =>
      rcases (same ▸ inner).target with ⟨rfl, _⟩ | reference
      · exact .inl known
      · exact .inl reference.mem_anchors
  | @button other title led =>
      have member : Attribute.target target ∈ earlier ++ Attribute.target target :: later := by simp
      rw [same] at member
      obtain rfl : target = other := by simpa using member
      exact .inr led

theorem laid_page {first : Section} {more : List Section} (texts : NavigationTexts)
    (printed : sections schema includeBuiltIns = .ok (first :: more)) :
    ∃ shown, Laid (pageRules schema includeBuiltIns (buttonTargets first.render)) ⟨[], .bare false⟩
      (navigationPanel texts first.render ++ laidOut (first :: more)) shown ⟨[], .bare false⟩ := by
  have whole : ∀ markup ∈ first :: more, Section.Whole
      (pageRules schema includeBuiltIns (buttonTargets first.render)) markup := by
    intro markup member
    obtain ⟨anchor, known, part⟩ := mem_of_forall₂ (isSectionOf_sections printed) member
    exact part.whole _ pageRules_permits (pageRules_heads known)
  obtain ⟨shown, flow, _⟩ := laidOut_sections whole
  have panel : Closed (pageRules schema includeBuiltIns (buttonTargets first.render))
      (navigationPanel texts first.render) :=
    closed_panel (fun _ led _ => .button led) fun _ => trivial
  exact ⟨_, (panel ⟨[], .bare false⟩).append flow⟩

theorem mem_laidOut {piece : Piece} {markup : Section} {list : List Section}
    (member : markup ∈ list) (inside : piece ∈ Section.laidOut 0 false markup) :
    piece ∈ laidOut list := by
  induction list with
  | nil => exact absurd member List.not_mem_nil
  | cons first rest ih =>
      cases rest with
      | nil =>
          obtain rfl := List.mem_singleton.mp member
          exact inside
      | cons next rest =>
          rcases List.mem_cons.mp member with rfl | later
          · exact List.mem_append_left _ (List.mem_append_left _ inside)
          · exact List.mem_append_right _ (ih later)

/-- Each anchor has a section that opens with it. -/
theorem mem_laidOut_region {list : List Section} {anchor : String}
    (printed : sections schema includeBuiltIns = .ok list)
    (known : anchor ∈ anchors schema includeBuiltIns) :
    Piece.opening .region [.identity anchor] ∈ laidOut list := by
  obtain ⟨markup, member, part⟩ := mem_of_forall₂ (isSectionOf_sections printed).flip known
  obtain ⟨rest, begins⟩ := part.begins
  refine mem_laidOut member ?_
  rw [begins]
  exact List.mem_cons_of_mem _ List.mem_cons_self

end

/-- How a button begins, up to its target. -/
def buttonMark : List Char :=
  "<a class=\"floating-button\" ".toList

theorem assemble_eq (texts : NavigationTexts) (first : Section) (more : List Section) :
    assemble texts ((first :: more).map Section.render) =
      normalize (navigationPanel texts first.render ++ laidOut (first :: more)).write := by
  rw [Fragment.write_append, write_laidOut]
  rfl

theorem render_eq_normalize {schema : Schema} {config : Config} {document : List Char}
    (inner : config.standalone = false) (rendered : render schema config = .ok document) :
    ∃ first more, schemaSection schema = .ok first ∧
      sections schema config.includeBuiltIns = .ok (first :: more) ∧
      document = normalize
        (navigationPanel config.navigation first.render ++ laidOut (first :: more)).write := by
  obtain ⟨texts, printedTexts, rendered⟩ := bind_eq_ok.mp rendered
  obtain ⟨list, printed, ⟨⟩⟩ := bind_eq_ok.mp printedTexts
  obtain ⟨first, printedFirst, others⟩ := bind_eq_ok.mp printed
  obtain ⟨more, printedMore, ⟨⟩⟩ := bind_eq_ok.mp others
  refine ⟨first, more, printedFirst, printed, ?_⟩
  obtain ⟨⟩ := rendered
  rw [inner, ← assemble_eq]
  rfl

/-- A name that escaping does not change stays as it is in its anchor. -/
theorem escape_typeAnchor {name : String} (plain : escape name.toList = name.toList) :
    escape (typeAnchor name).toList = (typeAnchor name).toList := by
  have lead : escape "graphql-".toList = "graphql-".toList ∧
      escape ('t' :: "ype-".toList) = 't' :: "ype-".toList := by decide
  rw [typeAnchor_toList, ← List.cons_append, escape_append, escape_append, plain, lead.1, lead.2]

theorem escape_of_isWord {name : String} (word : Sdl.IsWord name) :
    escape name.toList = name.toList := by
  refine escape_of_plain fun c member => ⟨?_, ?_⟩
  · rintro rfl
    exact absurd (word _ member) (by decide)
  · refine eq_false_of_ne_true fun marked => ?_
    simp only [isMarkupChar, Bool.or_eq_true, beq_iff_eq] at marked
    rcases marked with (rfl | rfl) | rfl <;> exact absurd (word _ member) (by decide)

/-- Every button of a document leads to one of its sections, unless it is that of a root type whose
name escaping changes. A schema that has been read from a text has no such root type. -/
theorem render_buttons {schema : Schema} {config : Config} {document : List Char}
    (inner : config.standalone = false) (rendered : render schema config = .ok document)
    {before name after : List Char} (unquoted : '"' ∉ name)
    (linked : document = before ++ (buttonMark ++ (targetMark ++ (name ++ '"' :: after)))) :
    ((∃ before after, document = before ++ (sectionMark name ++ after)) ∨
      ∃ operation root, schema.root? operation = some root ∧
        escape root.toList ≠ root.toList ∧ name = escape (escape (typeAnchor root).toList)) ∧
    ∀ source, Sdl.parse source = .ok schema →
      ∃ before after, document = before ++ (sectionMark name ++ after) := by
  obtain ⟨first, more, printedFirst, printed, rfl⟩ := render_eq_normalize inner rendered
  obtain ⟨_, flow⟩ := laid_page config.navigation printed
  have known : ∀ anchor ∈ anchors schema config.includeBuiltIns, name = escape anchor.toList →
      ∃ before after, normalize (navigationPanel config.navigation first.render ++
        laidOut (first :: more)).write = before ++ (sectionMark name ++ after) := by
    rintro anchor known rfl
    have opening := List.mem_append_right (navigationPanel config.navigation first.render)
      (mem_laidOut_region printed known)
    rw [← write_region]
    exact flow.exists_opening opening
  rw [← List.append_assoc] at linked
  obtain ⟨element, earlier, target, later, tag, named⟩ :=
    flow.target_of_normalize rfl unquoted linked
  have cases : (∃ before after, normalize (navigationPanel config.navigation first.render ++
        laidOut (first :: more)).write = before ++ (sectionMark name ++ after)) ∨
      ∃ operation root, schema.root? operation = some root ∧
        escape root.toList ≠ root.toList ∧ name = escape (escape (typeAnchor root).toList) := by
    rcases PageTag.target tag with anchored | led
    · exact .inl (known target anchored named)
    · rcases List.mem_cons.mp led with rfl | led
      · exact .inl (known schemaAnchor List.mem_cons_self named)
      · rw [rootLinks_schemaSection printedFirst] at led
        obtain ⟨link, found, rfl⟩ := List.mem_map.mp led
        obtain ⟨operation, _, found⟩ := List.mem_filterMap.mp found
        obtain ⟨root, definition, set, typed, user, rfl⟩ := rootLinkOf_eq_some.mp found
        simp only [String.toList_ofList] at named
        by_cases plain : escape root.toList = root.toList
        · obtain ⟨declared, rfl⟩ := Schema.type?_eq_some typed
          rw [escape_typeAnchor plain] at named
          exact .inl (known _ (IsLinked.type declared user).mem_anchors named)
        · exact .inr ⟨operation, root, set, plain, named⟩
  refine ⟨cases, fun source parsed => ?_⟩
  rcases cases with found | ⟨operation, root, set, changed, _⟩
  · exact found
  · exact absurd (escape_of_isWord (Sdl.isWord_root parsed set)) changed

theorem write_button (target title : String) :
    (Piece.opening .anchor [.style "floating-button", .target target, .title title]).write =
      buttonMark ++ (targetMark ++ (escape target.toList ++
        '"' :: ((Attribute.title title).write ++ ['>']))) := by
  have opening : buttonMark ++ targetMark = '<' :: Element.anchor.tag.toList ++
      ((Attribute.style "floating-button").write ++ " href=\"#".toList) := rfl
  have written : (Attribute.target target).write =
      " href=\"#".toList ++ (escape target.toList ++ ['"']) := List.append_assoc _ _ _
  rw [← List.append_assoc, opening]
  simp only [Piece.write_opening, Tag.write, Tag.content, List.flatMap_cons, List.flatMap_nil,
    written, List.append_assoc, List.cons_append, List.nil_append]

/-- What the buttons are meant to lead to has a button each. -/
theorem exists_button {schema : Schema} {config : Config} {document : List Char}
    (inner : config.standalone = false) (rendered : render schema config = .ok document)
    {link : RootLink}
    (linked : link ∈ [Operation.query, .mutation, .subscription].filterMap (rootLinkOf schema)) :
    ∃ before after, document =
      before ++ (buttonMark ++ (targetMark ++ (escape link.target ++ '"' :: after))) := by
  obtain ⟨first, more, printedFirst, printed, rfl⟩ := render_eq_normalize inner rendered
  obtain ⟨_, flow⟩ := laid_page config.navigation printed
  rw [← rootLinks_schemaSection printedFirst] at linked
  let text := operationTexts config.navigation link.operation
  have opening : Piece.opening .anchor [.style "floating-button",
      .target (String.ofList link.target), .title text.caption] ∈
        navigationPanel config.navigation first.render ++ laidOut (first :: more) := by
    have inPanel : Piece.opening .anchor [.style "floating-button",
        .target (String.ofList link.target), .title text.caption] ∈
          (rootLinks (closeGaps first.render)).flatMap (rootButton config.navigation) :=
      List.mem_flatMap.mpr ⟨link, linked, List.mem_cons_self⟩
    exact List.mem_append_left _ (List.mem_append_left _
      (List.mem_cons_of_mem _ (List.mem_append_right _ inPanel)))
  obtain ⟨before, after, shown⟩ := flow.exists_opening opening
  rw [write_button, String.toList_ofList] at shown
  refine ⟨before, (Attribute.title text.caption).write ++ ['>'] ++ after, shown.trans ?_⟩
  simp only [List.append_assoc, List.cons_append]

theorem render_buttons_query : ∃ document before after,
    render querySchema { Config.default with standalone := false } = .ok document ∧
      document =
        before ++ (buttonMark ++ (targetMark ++ ("graphql-type-Query".toList ++ '"' :: after))) ∧
      ∃ before after,
        document = before ++ (sectionMark "graphql-type-Query".toList ++ after) := by
  obtain ⟨document, rendered⟩ :=
    exists_render_querySchema { Config.default with standalone := false }
  have linked : (⟨.query, "graphql-type-Query".toList⟩ : RootLink) ∈
      [Operation.query, .mutation, .subscription].filterMap (rootLinkOf querySchema) :=
    List.mem_filterMap.mpr ⟨.query, List.mem_cons_self, rfl⟩
  obtain ⟨before, after, shown⟩ := exists_button rfl rendered linked
  have plain : escape "graphql-type-Query".toList = "graphql-type-Query".toList := by decide
  rw [plain] at shown
  exact ⟨document, before, after, rendered, shown,
    (render_buttons rfl rendered (by decide) shown).2 _ parse_querySchema⟩

/-- A section that is read in a document is the one of an anchor. -/
theorem mem_anchors_of_section {schema : Schema} {config : Config} {document : List Char}
    (inner : config.standalone = false) (rendered : render schema config = .ok document)
    {before name after : List Char} (plain : ∀ c ∈ name, isMarkupChar c = false)
    (shown : document = before ++ (sectionMark name ++ after)) :
    ∃ anchor ∈ anchors schema config.includeBuiltIns, name = escape anchor.toList := by
  obtain ⟨first, more, _, printed, rfl⟩ := render_eq_normalize inner rendered
  obtain ⟨_, flow⟩ := laid_page config.navigation printed
  have content : IsRun (Element.region.tag.toList ++ (" id=\"".toList ++ (name ++ ['"']))) := by
    have lead : IsRun Element.region.tag.toList ∧ IsRun " id=\"".toList ∧ IsRun ['"'] := by decide
    exact lead.1.append (lead.2.1.append ((isRun_of_plain plain).append lead.2.2))
  have mark : sectionMark name ++ after = '<' :: ((Element.region.tag.toList ++
      (" id=\"".toList ++ (name ++ ['"']))) ++ '>' :: after) := by
    have lead : "<section id=\"".toList =
        '<' :: (Element.region.tag.toList ++ " id=\"".toList) := by
      decide
    simp [sectionMark_eq, lead]
  rw [mark] at shown
  obtain ⟨tag, read, allowed⟩ := flow.tag_of_normalize content shown
  have begins : tag.content ++ ['>'] = Element.region.tag.toList ++
      (" id=\"".toList ++ (name ++ ['"']) ++ ['>']) := by
    rw [read, List.append_assoc]
  obtain ⟨attributes, rfl⟩ := Tag.region_of_content begins
  have written : attributes.flatMap Attribute.write = " id=\"".toList ++ (name ++ ['"']) :=
    List.append_cancel_left read
  cases (allowed _ _ rfl : PageTag schema config.includeBuiltIns _ .region attributes) with
  | inSection known opened =>
      cases opened with
      | styled => exact absurd (List.cons.inj (List.cons.inj written).2).1 (by decide)
      | @region =>
          rename_i own
          have identity : (Attribute.identity own).write =
              " id=\"".toList ++ (escape own.toList ++ ['"']) := List.append_assoc _ _ _
          rw [List.flatMap_singleton, identity] at written
          exact ⟨own, known, (List.append_cancel_right (List.append_cancel_left written)).symm⟩

/-- The name of its type is changed by escaping. -/
def ampersandSchema : Schema :=
  emptyTypeSchema "Q&A"

theorem isObtained_ampersandSchema : ampersandSchema.IsObtained := by
  have built : (SchemaBuilder.afterCalls
      [.root .query "Q&A", .type ⟨"Q&A", none, .user, [], .object [] []⟩]).build =
        .ok ampersandSchema := rfl
  exact .build built

/-- The button for the type leads to a section that the document does not have. -/
theorem not_render_buttons : ¬ ∀ (schema : Schema) (config : Config)
    (document before name after : List Char), schema.IsObtained → config.standalone = false →
      render schema config = .ok document → '"' ∉ name →
      document = before ++ (buttonMark ++ (targetMark ++ (name ++ '"' :: after))) →
      ∃ before after, document = before ++ (sectionMark name ++ after) := by
  intro claim
  let config := { Config.default with standalone := false }
  obtain ⟨document, rendered⟩ :=
    exists_render_emptyTypeSchema ⟨_, show schemaSection ampersandSchema = .ok _ from rfl⟩ config
  have linked : (⟨.query, "graphql-type-Q&amp;A".toList⟩ : RootLink) ∈
      [Operation.query, .mutation, .subscription].filterMap (rootLinkOf ampersandSchema) :=
    List.mem_filterMap.mpr ⟨.query, List.mem_cons_self, rfl⟩
  obtain ⟨before, after, shown⟩ := exists_button rfl rendered linked
  have plain : ∀ c ∈ escape "graphql-type-Q&amp;A".toList, isMarkupChar c = false :=
    fun _ => escape_plain
  obtain ⟨before, after, opened⟩ := claim _ config _ _ _ _ isObtained_ampersandSchema rfl
    rendered (markupChar_not_mem_escape rfl _) shown
  obtain ⟨anchor, known, same⟩ := mem_anchors_of_section rfl rendered plain opened
  have named : "graphql-type-Q&amp;A" = anchor := String.toList_inj.mp (escape_inj.mp same)
  have escaped : "graphql-type-Q&amp;A" = typeAnchor "Q&amp;A" := by decide
  rw [escaped] at named
  rcases List.mem_cons.mp known with isSchema | declared
  · exact schemaAnchor_ne_typeAnchor (named.trans isSchema).symm
  · obtain ⟨declaration, member, rfl⟩ := List.mem_map.mp declared
    rcases (mem_declarations.mp member).1 with ⟨type, inside, rfl⟩ | ⟨directive, _, rfl⟩
    · have other : ∀ type ∈ ampersandSchema.types, type.name ≠ "Q&amp;A" := by decide
      exact other type inside (typeAnchor_inj.mp named).symm
    · exact typeAnchor_ne_directiveAnchor named

end GraphqlReference.Page
