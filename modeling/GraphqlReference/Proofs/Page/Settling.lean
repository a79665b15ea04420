import GraphqlReference.Proofs.Html.NormalForm
import GraphqlReference.Proofs.Page.Layout
import GraphqlReference.Proofs.Sdl.LoadedNames

namespace GraphqlReference.Page

open Html

/-- Rules that demand of every text to be seen. -/
def strictRules : Rules :=
  openRules (fun text => Text.isVisible text = true) id

theorem isPlain_navigationPanel (texts : NavigationTexts) (first : List Char) :
    ∃ fragment : Fragment, navigationPanel texts first = fragment ++ [.closing .division] ∧
      ∀ piece ∈ fragment, piece.isPlain = true := by
  have buttonPlain : ∀ (text : ButtonText) (target : String),
      ∀ piece ∈ button text target, piece.isPlain = true := by
    intro text target
    exact List.forall_mem_cons.mpr ⟨rfl, List.forall_mem_cons.mpr ⟨rfl,
      List.forall_mem_singleton.mpr rfl⟩⟩
  refine ⟨_, rfl, List.forall_mem_cons.mpr ⟨by decide, List.forall_mem_append.mpr
    ⟨buttonPlain _ _, fun piece member => ?_⟩⟩⟩
  obtain ⟨link, _, inside⟩ := List.mem_flatMap.mp member
  exact buttonPlain _ _ piece inside

/-- The document of a schema that has been read from a text is its panel, and behind it the texts of
its sections without their layout, with a blank line between neighbours. -/
theorem render_eq_settled {source : String} {schema : Schema} {config : Config}
    {document : List Char} (parsed : Sdl.parse source = .ok schema)
    (inner : config.standalone = false) (rendered : render schema config = .ok document) :
    ∃ first more, schemaSection schema = .ok first ∧
      (declarations schema config.includeBuiltIns).mapM (declarationSection schema) = .ok more ∧
      document = normalize (navigationPanel config.navigation first.render).write ++
        Fragment.blankLine.write.intercalate ((first :: more).map Section.settled) := by
  obtain ⟨texts, printedTexts, rendered⟩ := bind_eq_ok.mp rendered
  obtain ⟨list, printed, ⟨⟩⟩ := bind_eq_ok.mp printedTexts
  have whole : ∀ markup ∈ list, Section.Whole strictRules markup :=
    whole_sections id printed (Sdl.allNamed_parse parsed)
  obtain ⟨laid, shown, flow, written, settled⟩ := laid_sections whole
  obtain ⟨first, printedFirst, printed⟩ := bind_eq_ok.mp printed
  obtain ⟨more, printedMore, ⟨⟩⟩ := bind_eq_ok.mp printed
  refine ⟨first, more, printedFirst, printedMore, ?_⟩
  obtain ⟨fragment, panel, plain⟩ := isPlain_navigationPanel config.navigation first.render
  have normal := Laid.normalize_behind (fun _ => id) plain .division flow .bare rfl
  rw [← panel, written, settled fun _ => id] at normal
  obtain ⟨⟩ := rendered
  rw [inner]
  exact normal

theorem render_eq_settled_query : ∃ document first more,
    render querySchema { Config.default with standalone := false } = .ok document ∧
      document =
        normalize (navigationPanel Config.default.navigation (Section.render first)).write ++
          Fragment.blankLine.write.intercalate ((first :: more).map Section.settled) := by
  obtain ⟨document, rendered⟩ :=
    exists_render_querySchema { Config.default with standalone := false }
  obtain ⟨first, more, _, _, same⟩ := render_eq_settled parse_querySchema rfl rendered
  exact ⟨document, first, more, rendered, same⟩

/-- Making a finished document of a text once more changes nothing: what has been made has the form
of a finished document, and so has what is put together from any sections. -/
theorem normalize_idempotent :
    (∀ text, normalize (normalize text) = normalize text ∧ IsNormal (normalize text) ∧
      (normalize text = text ↔ IsNormal text)) ∧
    ∀ texts fragments, normalize (assemble texts fragments) = assemble texts fragments := by
  have again : ∀ text, normalize (normalize text) = normalize text := fun text =>
    (isNormal_normalize text).normalize
  exact ⟨fun text => ⟨again text, isNormal_normalize text, normalize_eq_self_iff⟩,
    fun _ _ => again _⟩

end GraphqlReference.Page
