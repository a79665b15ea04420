import GraphqlReference.Proofs.Page.Links

namespace GraphqlReference.Page

open Html

theorem anchor_ne_of_name_ne {first second : Declaration} (different : first.name ≠ second.name) :
    first.anchor ≠ second.anchor := by
  cases first with
  | type definition =>
      cases second with
      | type definition' => exact fun same => different (typeAnchor_inj.mp same)
      | directive definition' => exact typeAnchor_ne_directiveAnchor
  | directive definition =>
      cases second with
      | type definition' => exact typeAnchor_ne_directiveAnchor.symm
      | directive definition' => exact fun same => different (directiveAnchor_inj.mp same)

theorem sectionMark_prefix_declarationSection {schema : Schema} {declaration : Declaration}
    {shown : Section} (printed : declarationSection schema declaration = .ok shown) :
    sectionMark (escape declaration.anchor.toList) <+: shown.render := by
  obtain ⟨rest, rfl⟩ := begins_declarationSection printed
  exact ⟨_, (render_region declaration.anchor rest).symm⟩

/-- Replacing the markup characters of a whole text one after another is replacing each character on
its own. None of the replaced characters is left but the ampersand, and one pass over the entities
gives the text back. So texts remain different and may be escaped part by part. A section begins
with the escaped anchor of its declaration, and this is a different one for a different name. -/
theorem escape_characterwise :
    (∀ text, escape text = text.flatMap escapeChar) ∧
    (∀ text, '<' ∉ escape text ∧ '>' ∉ escape text ∧ '"' ∉ escape text) ∧
    (∀ text, unescape (escape text) = text) ∧
    Function.Injective escape ∧
    (∀ first second, escape (first ++ second) = escape first ++ escape second) ∧
    (∀ schema declaration shown, declarationSection schema declaration = .ok shown →
      sectionMark (escape declaration.anchor.toList) <+: shown.render) ∧
    ∀ first second : Declaration, first.name ≠ second.name →
      escape first.anchor.toList ≠ escape second.anchor.toList := by
  refine ⟨escape_eq_flatMap, fun text => ?_, unescape_escape, fun _ _ => escape_inj.mp,
    escape_append, fun _ _ _ => sectionMark_prefix_declarationSection, ?_⟩
  · exact ⟨markupChar_not_mem_escape rfl text, markupChar_not_mem_escape rfl text,
      markupChar_not_mem_escape rfl text⟩
  · intro first second different same
    exact anchor_ne_of_name_ne different (String.toList_inj.mp (escape_inj.mp same))

/-- A name that looks like the escaped form of another one has a section of its own. -/
theorem escape_characterwise_lookalike :
    ∃ first second,
      declarationSection querySchema (.type ⟨"A&B", none, .user, [], .scalar⟩) = .ok first ∧
      declarationSection querySchema (.type ⟨"A&amp;B", none, .user, [], .scalar⟩) = .ok second ∧
      sectionMark (escape (typeAnchor "A&B").toList) <+: first.render ∧
      sectionMark (escape (typeAnchor "A&amp;B").toList) <+: second.render ∧
      escape (typeAnchor "A&B").toList ≠ escape (typeAnchor "A&amp;B").toList := by
  obtain ⟨_, _, _, _, _, begins, apart⟩ := escape_characterwise
  let scalar := fun name : String => Declaration.type ⟨name, none, .user, [], .scalar⟩
  have printed : ∀ name, ∃ shown, declarationSection querySchema (scalar name) = .ok shown :=
    fun _ => ⟨_, rfl⟩
  obtain ⟨first, printedFirst⟩ := printed "A&B"
  obtain ⟨second, printedSecond⟩ := printed "A&amp;B"
  have different : "A&B" ≠ "A&amp;B" := by decide
  exact ⟨first, second, printedFirst, printedSecond,
    begins querySchema (scalar "A&B") first printedFirst,
    begins querySchema (scalar "A&amp;B") second printedSecond,
    apart (scalar "A&B") (scalar "A&amp;B") different⟩

end GraphqlReference.Page
