import GraphqlReference.Proofs.Html.Region
import GraphqlReference.Proofs.Page.Links
import GraphqlReference.Proofs.Page.Ordering

namespace GraphqlReference.Page

open Html

/-- The rules of what stands inside a section: no section begins there. -/
def contentRules : Rules where
  opens element attributes := element ≠ .region ∧ attributes.all Attribute.isPlain = true
  shows _ := True
  plain := And.right
  styled other plain := ⟨other, by simpa using plain⟩
  visible _ := trivial

section

variable {schema : Schema}

theorem contentRules_permits : Permits contentRules schema where
  reference plain _ := ⟨by decide, isPlain_reference _ plain⟩
  named _ _ := trivial

theorem not_mem_sectionMark_rest (name : List Char) :
    '<' ∉ "section id=\"".toList ++ escape name ++ ['"'] := by
  have marks : '<' ∉ "section id=\"".toList ∧ '<' ∉ ['"'] := by decide
  exact List.not_mem_append
    (List.not_mem_append marks.1 (markupChar_not_mem_escape rfl name)) marks.2

/-- A section begins at the beginning of its text and nowhere else. -/
theorem region_first {anchor : String} {markup : Section}
    (part : IsSectionOf schema anchor markup) {before after : List Char}
    (same : markup.render = before ++ (regionMark ++ after)) : before = [] := by
  obtain ⟨content, whole, rfl⟩ := part.framed contentRules contentRules_permits ⟨by decide, rfl⟩
  have ends : Section.Flows contentRules ⟨[.region], .bare false⟩ sectionEnd ⟨[], .bare false⟩ :=
    .token rfl (Step.closing rfl).flow .nil
  have flows := (whole [.region]).append ends
  obtain ⟨laid, _, flow, written, _⟩ := flows.laid 1 true
  have split : ('<' :: ("section id=\"".toList ++ escape anchor.toList ++ ['"'])) ++
      '>' :: laid.write = before ++ (regionMark ++ after) := by
    have whole := render_region anchor (content ++ sectionEnd)
    rw [← written, sectionMark_eq] at whole
    rw [← same, List.cons_append, List.cons_append, whole]
    simp
  have outside : '>' ∉ regionMark := by decide
  rcases Text.word_beside outside split with ⟨rest, inTag, _⟩ | ⟨rest, _, inside⟩
  · cases before with
    | nil => rfl
    | cons c before =>
        have later : '<' ∈ before ++ (regionMark ++ rest) := by simp [regionMark_eq]
        exact absurd ((List.cons.inj inTag).2 ▸ later) (not_mem_sectionMark_rest anchor.toList)
  · exact absurd inside (flow.no_region fun _ allowed => allowed.1 rfl)

theorem fragments_eq_ok {config : Config} {texts : List (List Char)} :
    fragments schema config = .ok texts ↔ ∃ first more,
      schemaSection schema = .ok first ∧
      (declarations schema config.includeBuiltIns).mapM (declarationSection schema) = .ok more ∧
      texts = first.render :: more.map Section.render := by
  constructor
  · intro printed
    obtain ⟨list, printedList, ⟨⟩⟩ := bind_eq_ok.mp printed
    obtain ⟨first, printedFirst, others⟩ := bind_eq_ok.mp printedList
    obtain ⟨more, printedMore, ⟨⟩⟩ := bind_eq_ok.mp others
    exact ⟨first, more, printedFirst, printedMore, rfl⟩
  · rintro ⟨first, more, printedFirst, printedMore, rfl⟩
    refine bind_eq_ok.mpr ⟨first :: more, ?_, rfl⟩
    exact bind_eq_ok.mpr ⟨first, printedFirst, bind_eq_ok.mpr ⟨more, printedMore, rfl⟩⟩

theorem declarations_false (schema : Schema) : declarations schema false =
    (declarations schema true).filter fun declaration => !declaration.isBuiltIn := by
  simp [declarations]

/-- The texts of the declarations that are not built in. -/
def userTexts (declarations : List Declaration) (texts : List (List Char)) : List (List Char) :=
  ((declarations.zip texts).filter fun pair => !pair.1.isBuiltIn).map Prod.snd

/-- Leaving out the built-in declarations takes away their sections and nothing else. -/
theorem fragments_without_builtIns {config : Config} {texts : List (List Char)}
    (printed : fragments schema { config with includeBuiltIns := true } = .ok texts) :
    ∃ first more, texts = first :: more ∧ more.length = (declarations schema true).length ∧
      fragments schema { config with includeBuiltIns := false } =
        .ok (first :: userTexts (declarations schema true) more) := by
  obtain ⟨first, more, printedFirst, printedMore, rfl⟩ := fragments_eq_ok.mp printed
  refine ⟨first.render, more.map Section.render, rfl, ?_, ?_⟩
  · rw [List.length_map]
    exact (mapM_eq_ok.mp printedMore).length_eq.symm
  · have kept := mapM_filter (fun declaration => !declaration.isBuiltIn) printedMore
    rw [← declarations_false] at kept
    refine fragments_eq_ok.mpr ⟨first, _, printedFirst, kept, ?_⟩
    · rw [userTexts, List.zip_map_right, List.filter_map, List.map_map, List.map_map]
      rfl

end

/-- The anchors, the declarations and the sections of a page agree. -/
theorem listing_agrees {schema : Schema} (obtained : schema.IsObtained) (config : Config) :
    ((anchors schema config.includeBuiltIns).Nodup ∧
      ((anchors schema config.includeBuiltIns).map fun anchor => escape anchor.toList).Nodup) ∧
    (∃ (types : List TypeDefinition) (directives : List DirectiveDefinition),
      declarations schema config.includeBuiltIns =
        types.map Declaration.type ++ directives.map Declaration.directive ∧
      types.Perm (schema.types.filter fun definition =>
        config.includeBuiltIns || !definition.isBuiltIn) ∧
      types.Pairwise Earlier ∧
      directives.Perm (schema.directives.filter fun definition =>
        config.includeBuiltIns || !definition.isBuiltIn) ∧
      directives.Pairwise fun first second =>
        Text.bytes first.name < Text.bytes second.name) ∧
    (∀ texts, fragments schema config = .ok texts →
      List.Forall₂ (fun anchor text => sectionMark (escape anchor.toList) <+: text ∧
          ∀ before after, text = before ++ (regionMark ++ after) → before = [])
        (anchors schema config.includeBuiltIns) texts) ∧
    ∀ texts, fragments schema { config with includeBuiltIns := true } = .ok texts →
      ∃ first more, texts = first :: more ∧ more.length = (declarations schema true).length ∧
        fragments schema { config with includeBuiltIns := false } =
          .ok (first :: userTexts (declarations schema true) more) := by
  have distinct := obtained.isDistinct
  have nodup : (anchors schema config.includeBuiltIns).Nodup := nodup_anchors distinct
  refine ⟨⟨nodup, ?_⟩, declarations_ordered distinct _, ?_, ?_⟩
  · exact nodup.map fun _ _ same => String.toList_inj.mp (escape_inj.mp same)
  · intro texts printed
    obtain ⟨list, printedList, ⟨⟩⟩ := bind_eq_ok.mp printed
    rw [List.forall₂_map_right_iff]
    exact (isSectionOf_sections printedList).imp fun _ _ part =>
      ⟨sectionMark_prefix_render part, fun _ _ => region_first part⟩
  · exact fun _ => fragments_without_builtIns

/-- The page of a schema with a single type lists the type with and without the built-in ones. -/
theorem listing_agrees_query : querySchema.IsObtained ∧
    (anchors querySchema Config.default.includeBuiltIns).Nodup ∧
    ∃ first more, fragments querySchema { Config.default with includeBuiltIns := true } =
        .ok (first :: more) ∧
      fragments querySchema { Config.default with includeBuiltIns := false } =
        .ok (first :: userTexts (declarations querySchema true) more) := by
  have obtained : querySchema.IsObtained := .parse parse_querySchema
  obtain ⟨nodup, _, _, fewer⟩ := listing_agrees obtained Config.default
  obtain ⟨_, rendered⟩ :=
    exists_render_querySchema { Config.default with includeBuiltIns := true }
  obtain ⟨texts, printed, _⟩ := bind_eq_ok.mp rendered
  obtain ⟨first, more, rfl, _, kept⟩ := fewer texts printed
  exact ⟨obtained, nodup.1, first, more, printed, kept⟩

end GraphqlReference.Page
