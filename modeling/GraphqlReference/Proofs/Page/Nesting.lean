import GraphqlReference.Proofs.Page.Layout

namespace GraphqlReference.Page

open Html

/-- Rules without any demand on texts. -/
def laxRules : Rules :=
  openRules (fun _ => True) fun _ => trivial

/-- What the buttons for a first section lead to. -/
def buttonTargets (first : List Char) : List String :=
  schemaAnchor :: (rootLinks (closeGaps first)).map fun link => String.ofList link.target

section

variable {rules : Rules}

theorem closed_button {text : ButtonText} {target : String}
    (allowed : rules.opens .anchor
      [.style "floating-button", .target target, .title text.caption])
    (shown : rules.shows text.label.toList) : Closed rules (button text target) :=
  (filling_text shown).closed_element allowed

theorem closed_panel {texts : NavigationTexts} {first : List Char}
    (allowed : ∀ target ∈ buttonTargets first, ∀ title,
      rules.opens .anchor [.style "floating-button", .target target, .title title])
    (shown : ∀ text, rules.shows text) : Closed rules (navigationPanel texts first) := by
  obtain ⟨top, others⟩ := List.forall_mem_cons.mp allowed
  rw [List.forall_mem_map] at others
  have buttons : Spaced rules ((rootLinks (closeGaps first)).flatMap (rootButton texts)) := by
    generalize rootLinks (closeGaps first) = links at others
    induction links with
    | nil => exact spaced_nil
    | cons link rest ih =>
        obtain ⟨here, later⟩ := List.forall_mem_cons.mp others
        exact (closed_button (here _) (shown _)).spaced.append (ih later)
  exact ((closed_button (top _) (shown _)).append buttons).filling.closed_division (by decide)

end

theorem closed_navigationPanel (texts : NavigationTexts) (first : List Char) :
    Closed laxRules (navigationPanel texts first) :=
  closed_panel (fun _ _ _ => rfl) fun _ => trivial

/-- A document that does not stand alone is well nested, and each of its ampersands begins an
entity. -/
theorem render_wellNested {schema : Schema} {config : Config} {document : List Char}
    (inner : config.standalone = false) (rendered : render schema config = .ok document) :
    WellNested [] document ∧ AmpersandsEscaped document := by
  obtain ⟨texts, printedTexts, rendered⟩ := bind_eq_ok.mp rendered
  obtain ⟨list, printed, ⟨⟩⟩ := bind_eq_ok.mp printedTexts
  have wholeList : ∀ markup ∈ list, Section.Whole laxRules markup :=
    whole_sections (fun _ => trivial) printed fun _ _ => trivial
  obtain ⟨laid, shown, flow, written, _⟩ := laid_sections wholeList
  have panel := closed_navigationPanel config.navigation
    ((list.map Section.render).head?.getD []) ⟨[], .bare false⟩
  have whole := (panel.append flow).wellNested rfl rfl
  rw [Fragment.write_append, written] at whole
  obtain ⟨⟩ := rendered
  rw [inner]
  exact whole

/-- A schema whose only type has markup characters in its texts. -/
def markupSchema : Schema where
  description := some "<section>"
  query := "<\"&>"
  mutation := none
  subscription := none
  usages := []
  types := [⟨"<\"&>", some "</div>&nbsp", .user, [], .enum [⟨"</a>", none, []⟩]⟩]
  directives := []

theorem render_wellNested_markup :
    ∃ document, render markupSchema { Config.default with standalone := false } = .ok document ∧
      WellNested [] document ∧ AmpersandsEscaped document := by
  obtain ⟨document, rendered⟩ := exists_render { Config.default with standalone := false }
    ⟨_, show schemaSection markupSchema = .ok _ from rfl⟩
    (List.forall_mem_singleton.mpr ⟨_, rfl⟩) (fun _ member => absurd member List.not_mem_nil)
  exact ⟨document, rendered, render_wellNested rfl rendered⟩

end GraphqlReference.Page
