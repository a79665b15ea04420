import GraphqlReference.Proofs.Html.Alike
import GraphqlReference.Proofs.Page.Buttons
import GraphqlReference.Proofs.Page.Comparing
import GraphqlReference.Proofs.Text.Lines

namespace GraphqlReference.Page

open Html

/-- What a line of a description shows. -/
def lineContent (piece : List Char) : Fragment :=
  let shown := Text.trimEnd (Text.dropFinalReturn piece)
  if shown.isEmpty then [.spacer] else [.text shown]

/-- What the lines of a block show. -/
def blockContents (text : List Char) : List Fragment :=
  [.quotes 3] :: (Text.lineFeedPieces text).map lineContent ++ [[.quotes 3]]

theorem textBlock_eq (text : List Char) :
    textBlock text = Section.describing (blockContents text) := by
  have line : ∀ piece, descriptionLine piece = Fragment.line (lineContent piece) := by
    intro piece
    unfold descriptionLine lineContent
    simp only
    split <;> rfl
  rw [textBlock_eq_tokens]
  simp [Section.describing, Section.lines, blockContents, line, blockDelimiter]

theorem isTagless_blockContents (text : List Char) :
    ∀ content ∈ blockContents text, content.isTagless = true := by
  have lines : ∀ content ∈ (Text.lineFeedPieces text).map lineContent,
      content.isTagless = true := by
    intro content member
    obtain ⟨piece, _, rfl⟩ := List.mem_map.mp member
    unfold lineContent
    simp only
    split <;> rfl
  exact List.forall_mem_append.mpr ⟨List.forall_mem_cons.mpr ⟨rfl, lines⟩,
    List.forall_mem_singleton.mpr rfl⟩

theorem alike_textBlock {text text' : List Char} (same : text.count '\n' = text'.count '\n') :
    Section.Alike (textBlock text) (textBlock text') := by
  rw [textBlock_eq, textBlock_eq]
  refine Section.alike_describing ?_ (isTagless_blockContents _) (isTagless_blockContents _)
  simp [blockContents, Text.length_lineFeedPieces, same]

theorem descriptionBlock_eq (description : Option String) :
    descriptionBlock description =
      if isDescribed description then textBlock (descriptionText description) else [] := by
  cases description with
  | none => rfl
  | some text =>
      have described : isDescribed (some text) = !text.isEmpty := rfl
      rw [described]
      by_cases empty : text.isEmpty = true <;> simp [descriptionBlock, descriptionText, empty]

theorem memberDescription_eq (description : Option String) :
    memberDescription description =
      if isDescribed description then
        if hasLineBreak (descriptionText description) then textBlock (descriptionText description)
        else [.inline (Fragment.division "description"
          (.line [.quotes 1, .text (descriptionText description), .quotes 1]))]
      else [] := by
  cases description with
  | none => rfl
  | some text =>
      have described : isDescribed (some text) = !text.isEmpty := rfl
      rw [described]
      by_cases empty : text.isEmpty = true
      · simp [memberDescription, empty]
      · simp only [memberDescription, empty]
        rfl

theorem hasLineBreak_iff {text : List Char} :
    hasLineBreak text = true ↔ '\n' ∈ text ∨ '\r' ∈ text := by
  simp [hasLineBreak, and_or_left, exists_or]

section

variable {description description' : Option String} (same : SameShape description description')
include same

theorem alike_descriptionBlock :
    Section.Alike (descriptionBlock description) (descriptionBlock description') := by
  rw [descriptionBlock_eq, descriptionBlock_eq, same.isDescribed]
  split
  · exact alike_textBlock same.lineFeeds
  · exact .refl _

theorem alike_memberDescription :
    Section.Alike (memberDescription description) (memberDescription description') := by
  have lineBreaks : hasLineBreak (descriptionText description) =
      hasLineBreak (descriptionText description') := by
    rw [Bool.eq_iff_iff, hasLineBreak_iff, hasLineBreak_iff]
    exact same.lineBreaks
  rw [memberDescription_eq, memberDescription_eq, same.isDescribed, lineBreaks]
  split
  · split
    · exact alike_textBlock same.lineFeeds
    · exact .inline (Fragment.alike_description rfl rfl)
  · exact .refl _

end

/-- Comparing pages behind a veil, for descriptions of the same shape. -/
def Comparison.veiled : Comparison where
  toLikeness := .shapes
  fragment := Fragment.Alike
  markup := Section.Alike
  fragment_refl := .refl
  fragment_append := .append
  markup_refl := .refl
  markup_append := .append
  inline := .inline
  link _ _ shown _ := .link (.refl shown)
  descriptionBlock := alike_descriptionBlock
  memberDescription := alike_memberDescription
  isDescribed := SameShape.isDescribed

theorem compares_redescribed {schema schema' : Schema} (same : schema.Redescribed schema') :
    Comparison.veiled.Compares schema schema' :=
  .of_like same (suppliesAlike_of_eq fun _ _ used => used)

theorem alike_laidOut {list list' : List Section} (all : List.Forall₂ Section.Alike list list') :
    Fragment.Alike (laidOut list) (laidOut list') :=
  Comparison.veiled.fragment_join _ (List.rel_map (fun _ _ alike => alike.laidOut) all)

/-- A document on a page of its own stands behind the end of a tag. -/
theorem exists_page (config : Config) : ∃ before after, ∀ document,
    page config document = before ++ '>' :: (document ++ after) := by
  have opening : "<main class=\"graphql-schema\">".toList =
      "<main class=\"graphql-schema\"".toList ++ ['>'] := by decide
  have split : ∀ first document last behind further : List Char,
      first ++ ([("<main class=\"graphql-schema\">".toList), document, last].flatten ++ ['\n']) ++
          behind ++ further =
        (first ++ "<main class=\"graphql-schema\"".toList) ++
          '>' :: (document ++ (last ++ '\n' :: (behind ++ further))) := by
    intro first document last behind further
    rw [opening]
    simp only [List.flatten_cons, List.flatten_nil, List.append_assoc, List.cons_append,
      List.nil_append]
  exact ⟨_, _, fun document => split _ document _ _ _⟩

/-- The document with these sections. -/
def documentOf (config : Config) (list : List Section) : List Char :=
  let document := assemble config.navigation (list.map Section.render)
  if config.standalone then page config document else document

theorem render_eq_bind (schema : Schema) (config : Config) :
    render schema config =
      sections schema config.includeBuiltIns >>= fun list => .ok (documentOf config list) := by
  unfold render fragments
  cases sections schema config.includeBuiltIns <;> rfl

theorem erase_page {document document' : List Char}
    (same : ∀ opened rest, eraseFrom opened none (document ++ rest) =
      eraseFrom opened none (document' ++ rest)) (config : Config) :
    erase (page config document) = erase (page config document') := by
  obtain ⟨before, after, framed⟩ := exists_page config
  obtain ⟨shown, opened, erased⟩ := exists_eraseFrom_tagEnd [] none before
  rw [erase, erase, framed, framed, erased, erased, same]

theorem erase_documentOf {config : Config} {list list' : List Section}
    (same : ∀ opened rest,
      eraseFrom opened none (assemble config.navigation (list.map Section.render) ++ rest) =
        eraseFrom opened none (assemble config.navigation (list'.map Section.render) ++ rest)) :
    erase (documentOf config list) = erase (documentOf config list') := by
  unfold documentOf
  cases config.standalone with
  | true => exact erase_page same config
  | false =>
      have inner := same [] []
      rw [List.append_nil, List.append_nil] at inner
      exact inner

/-- Behind the same panel, erasing does not tell sections apart that are alike. -/
theorem eraseFrom_assemble {schema schema' : Schema} {includeBuiltIns : Bool}
    {first first' : Section} {more more' : List Section} {texts : NavigationTexts}
    (printed : sections schema includeBuiltIns = .ok (first :: more))
    (printed' : sections schema' includeBuiltIns = .ok (first' :: more'))
    (panel : navigationPanel texts first.render = navigationPanel texts first'.render)
    (alike : List.Forall₂ Section.Alike (first :: more) (first' :: more'))
    (opened : List (List Char)) (rest : List Char) :
    eraseFrom opened none (assemble texts ((first :: more).map Section.render) ++ rest) =
      eraseFrom opened none (assemble texts ((first' :: more').map Section.render) ++ rest) := by
  obtain ⟨_, flow⟩ := laid_page texts printed
  obtain ⟨_, flow'⟩ := laid_page texts printed'
  have plain' := flow'.isPlain
  have whole := (Fragment.Alike.refl (navigationPanel texts first.render)).append
    (alike_laidOut alike)
  rw [← panel] at plain'
  rw [assemble_eq, assemble_eq, ← panel]
  exact whole.eraseFrom_normalize flow.isPlain plain' opened rest

section

variable {schema schema' : Schema} (same : schema.Redescribed schema')
include same

theorem rootLinkOf_redescribed : rootLinkOf schema = rootLinkOf schema' := by
  funext operation
  unfold rootLinkOf
  rw [same.root?]
  cases schema'.root? operation with
  | none => rfl
  | some name =>
      have found := same.type? name
      simp only [Option.bind_eq_bind, Option.bind_some]
      generalize schema.type? name = entry, schema'.type? name = entry' at found
      cases found with
      | none => rfl
      | some here => simp only [Option.bind_some, here.isBuiltIn]

theorem navigationPanel_redescribed :
    Agree (fun first first' => ∀ texts,
        navigationPanel texts first.render = navigationPanel texts first'.render)
      (schemaSection schema) (schemaSection schema') := by
  have agree := schemaSection_compared (compares_redescribed same)
  refine agree.imp fun _ _ printed printed' _ texts => ?_
  unfold navigationPanel
  rw [rootLinks_schemaSection printed, rootLinks_schemaSection printed',
    rootLinkOf_redescribed same]

/-- Schemas that differ in descriptions of the same shape have the same error, or documents that
are the same without titles and without what the lines of descriptions show; and the buttons of the
documents are the same. -/
theorem render_redescribed (config : Config) :
    Agree (fun document document' => erase document = erase document')
      (render schema config) (render schema' config) ∧
    Agree (fun first first' => ∀ texts,
        navigationPanel texts first.render = navigationPanel texts first'.render)
      (schemaSection schema) (schemaSection schema') := by
  have panels := navigationPanel_redescribed same
  refine ⟨?_, panels⟩
  rw [render_eq_bind, render_eq_bind]
  have sections := sections_compared (compares_redescribed same) config.includeBuiltIns
    (declarations_like same config.includeBuiltIns)
  refine (sections.imp ?_).bind fun _ _ erased => .ok erased
  intro list list' printed printed' alike
  obtain ⟨first, printedFirst, others⟩ := bind_eq_ok.mp printed
  obtain ⟨more, printedMore, ⟨⟩⟩ := bind_eq_ok.mp others
  obtain ⟨first', printedFirst', others'⟩ := bind_eq_ok.mp printed'
  obtain ⟨more', printedMore', ⟨⟩⟩ := bind_eq_ok.mp others'
  rw [printedFirst, printedFirst'] at panels
  cases panels with
  | ok panel => exact erase_documentOf (eraseFrom_assemble printed printed' (panel _) alike)

end

/-- A schema with a single empty type, both of them with this description. -/
def describedSchema (text : String) : Schema where
  description := some text
  query := "Query"
  mutation := none
  subscription := none
  usages := []
  types := BuiltIn.scalars ++ [⟨"Query", some text, .user, [], .object [] []⟩]
  directives := BuiltIn.directives

theorem redescribed_describedSchema {text text' : String}
    (same : SameShape (some text) (some text')) :
    (describedSchema text).Redescribed (describedSchema text') where
  description := same
  query := rfl
  mutation := rfl
  subscription := rfl
  usages := .nil
  types := List.rel_append (List.forall₂_same.mpr fun definition _ => .refl definition)
    (.cons ⟨rfl, same, rfl, .nil, .refl _⟩ .nil)
  directives := List.forall₂_same.mpr fun definition _ => .refl definition

theorem render_redescribed_markup : ∃ document document',
    render (describedSchema "</div>\n&nbsp;") Config.default = .ok document ∧
      render (describedSchema "\n") Config.default = .ok document' ∧
      erase document = erase document' := by
  have same : SameShape (some "</div>\n&nbsp;") (some "\n") :=
    ⟨by decide, by decide, by decide⟩
  have made : ∀ text, ∃ document, render (describedSchema text) Config.default = .ok document :=
    fun _ => exists_render_emptyType rfl rfl ⟨_, rfl⟩ Config.default
  obtain ⟨document, rendered⟩ := made "</div>\n&nbsp;"
  obtain ⟨document', rendered'⟩ := made "\n"
  have agree := (render_redescribed (redescribed_describedSchema same) Config.default).1
  rw [rendered, rendered'] at agree
  cases agree with
  | ok erased => exact ⟨document, document', rendered, rendered', erased⟩

end GraphqlReference.Page
