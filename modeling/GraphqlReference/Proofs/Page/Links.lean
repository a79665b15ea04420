import GraphqlReference.Proofs.Html.Target
import GraphqlReference.Proofs.Page.Anchors

namespace GraphqlReference.Page

open Html

/-- The opening tags in a section with this anchor. -/
inductive SectionTag (schema : Schema) (own : String) : Element → List Attribute → Prop
  | styled {element : Element} {style : String} : (Attribute.style style).isPlain = true →
      SectionTag schema own element [.style style]
  | region : SectionTag schema own .region [.identity own]
  | selfLink : SectionTag schema own .anchor [.style "self-link", .target own]
  | reference {style title : String} {target : Option String} :
      (Attribute.style style).isPlain = true → (∀ anchor ∈ target, IsLinked schema anchor) →
      SectionTag schema own .anchor (.style style :: target.toList.map .target ++ [.title title])

section

variable {schema : Schema} {own : String}

theorem SectionTag.isPlain {element : Element} {attributes : List Attribute}
    (tag : SectionTag schema own element attributes) :
    attributes.all Attribute.isPlain = true := by
  cases tag with
  | styled plain => simpa using plain
  | region | selfLink => rfl
  | @reference _ _ target plain _ => exact isPlain_reference target plain

/-- A tag with a target is the link of a section to itself or a reference. -/
theorem SectionTag.target {element : Element} {earlier later : List Attribute} {target : String}
    (tag : SectionTag schema own element (earlier ++ .target target :: later)) :
    (target = own ∧ element = .anchor ∧ earlier = [.style "self-link"]) ∨
      IsLinked schema target := by
  generalize same : earlier ++ Attribute.target target :: later = attributes at tag
  have member : Attribute.target target ∈ attributes := by simp [← same]
  cases tag with
  | styled | region => simp at member
  | selfLink =>
      obtain rfl : target = own := by simpa using member
      have first : Attribute.target target ∉ [Attribute.style "self-link"] := by simp
      have split : [Attribute.style "self-link"] ++ .target target :: [] =
          earlier ++ .target target :: later := same.symm
      rcases Text.append_cons_eq_append_cons first split with ⟨here, _⟩ | ⟨rest, _, behind⟩
      · exact .inl ⟨rfl, rfl, here⟩
      · simp at behind
  | reference _ linked =>
      refine .inr (linked target ?_)
      simpa using member

def sectionRules (schema : Schema) (own : String) : Rules where
  opens := SectionTag schema own
  shows _ := True
  plain := SectionTag.isPlain
  styled _ := .styled
  visible _ := trivial

theorem sectionRules_permits : Permits (sectionRules schema own) schema where
  reference := .reference
  named _ _ := trivial

theorem sectionRules_heads : Heads (sectionRules schema own) own where
  region := .region
  selfLink := .selfLink

/-- How the section of an anchor begins, given the anchor as it is written. -/
def sectionMark (name : List Char) : List Char :=
  "<section id=\"".toList ++ name ++ "\">".toList

theorem sectionMark_eq (name : List Char) :
    sectionMark name = "<section id=\"".toList ++ name ++ ['"', '>'] :=
  rfl

/-- What stands in front of the target of a link of a section to itself. -/
def selfLinkMark : List Char :=
  "<a class=\"self-link\" ".toList

theorem write_region (anchor : String) :
    (Piece.opening .region [.identity anchor]).write = sectionMark (escape anchor.toList) := by
  have pieces : (Piece.opening .region [.identity anchor]).write = '<' :: "section".toList ++
      (" id=\"".toList ++ escape anchor.toList ++ ['"'] ++ []) ++ ['>'] := rfl
  have start : "<section id=\"".toList = '<' :: "section".toList ++ " id=\"".toList := by decide
  rw [pieces, sectionMark_eq, start]
  simp only [List.append_assoc, List.cons_append, List.nil_append]

theorem render_region (anchor : String) (rest : Section) :
    Section.render (.opening [.opening .region [.identity anchor]] :: rest) =
      sectionMark (escape anchor.toList) ++
        Markup.renderFrom 1 true (Markup.write Piece.write rest) := by
  have written : Section.render (.opening [.opening .region [.identity anchor]] :: rest) =
      Fragment.write [.opening .region [.identity anchor]] ++
        Markup.renderFrom 1 true (Markup.write Piece.write rest) := rfl
  rw [written, Fragment.write_cons, write_region, List.append_assoc]
  rfl

theorem sectionMark_prefix_render {anchor : String} {markup : Section}
    (part : IsSectionOf schema anchor markup) :
    sectionMark (escape anchor.toList) <+: markup.render := by
  obtain ⟨rest, rfl⟩ := part.begins
  exact ⟨_, (render_region anchor rest).symm⟩

theorem sectionMark_prefix_iff {anchor : String} {name : List Char} {markup : Section}
    (part : IsSectionOf schema anchor markup) (unquoted : '"' ∉ name) :
    sectionMark name <+: markup.render ↔ name = escape anchor.toList := by
  refine ⟨fun ⟨behind, same⟩ => ?_, fun same => same ▸ sectionMark_prefix_render part⟩
  obtain ⟨behind', same'⟩ := sectionMark_prefix_render part
  have both := same.trans same'.symm
  simp only [sectionMark_eq, List.append_assoc, List.append_cancel_left_eq, List.cons_append,
    List.nil_append] at both
  exact (Text.append_cons_inj_of_not_mem unquoted (markupChar_not_mem_escape rfl _) both).1

/-- There are as many sections that begin under a name as there are anchors of that name. -/
theorem countP_sectionMark {anchors : List String} {list : List Section}
    (parts : List.Forall₂ (IsSectionOf schema) anchors list) (target : String) :
    (list.map Section.render).countP ((sectionMark (escape target.toList)).isPrefixOf ·) =
      anchors.count target := by
  induction parts with
  | nil => rfl
  | @cons anchor markup anchors list part _ ih =>
      have named := sectionMark_prefix_iff part (markupChar_not_mem_escape rfl target.toList)
      rw [escape_inj, String.toList_inj, ← List.isPrefixOf_iff_prefix] at named
      rw [List.map_cons, List.countP_cons, List.count_cons, ih]
      by_cases same : target = anchor
      · rw [if_pos (named.mpr same), if_pos (beq_iff_eq.mpr same.symm)]
      · rw [if_neg (mt named.mp same), if_neg (mt beq_iff_eq.mp (Ne.symm same))]

end

/-- What a fragment links has exactly one section, and it is no built-in declaration unless it is
the section of the fragment itself. -/
theorem fragments_links {schema : Schema} {config : Config} {texts : List (List Char)}
    (obtained : schema.IsObtained) (printed : fragments schema config = .ok texts)
    {text before name after : List Char} (member : text ∈ texts)
    (linked : text = before ++ (targetMark ++ (name ++ '"' :: after))) (unquoted : '"' ∉ name) :
    texts.countP ((sectionMark name).isPrefixOf ·) = 1 ∧
      (¬ (selfLinkMark <:+ before ∧ sectionMark name <+: text) →
        ∀ declaration ∈ declarations schema true, declaration.isBuiltIn = true →
          name ≠ escape declaration.anchor.toList) := by
  obtain ⟨list, printedSections, ⟨⟩⟩ := bind_eq_ok.mp printed
  have distinct := obtained.isDistinct
  have parts := isSectionOf_sections printedSections
  obtain ⟨markup, inside, rfl⟩ := List.mem_map.mp member
  obtain ⟨own, ownAnchor, part⟩ := mem_of_forall₂ parts inside
  obtain ⟨laid, _, flow, written, _⟩ :=
    (part.whole _ sectionRules_permits sectionRules_heads []).laid 0 false
  obtain ⟨element, earlier, target, later, lead, tag, rfl, here⟩ :=
    flow.target_of_write rfl unquoted (written.trans linked)
  have known := SectionTag.target tag
  have anchored : target ∈ anchors schema config.includeBuiltIns := by
    rcases known with ⟨rfl, _⟩ | reference
    · exact ownAnchor
    · exact reference.mem_anchors
  refine ⟨?_, fun other declaration declared builtIn same => ?_⟩
  · rw [countP_sectionMark parts]
    exact List.count_eq_one_of_mem (nodup_anchors distinct) anchored
  · rcases known with ⟨rfl, rfl, rfl⟩ | reference
    · refine other ⟨⟨lead, ?_⟩, sectionMark_prefix_render part⟩
      rw [here]
      rfl
    · exact reference.ne_builtIn distinct declared builtIn
        (String.toList_inj.mp (escape_inj.mp same))

/-- The section about a schema links the type that is the root of queries. -/
theorem fragments_links_query : ∃ texts text before after,
    fragments querySchema Config.default = .ok texts ∧ text ∈ texts ∧
      text = before ++ (targetMark ++ ("graphql-type-Query".toList ++ '"' :: after)) ∧
      texts.countP ((sectionMark "graphql-type-Query".toList).isPrefixOf ·) = 1 := by
  obtain ⟨_, rendered⟩ := exists_render_querySchema Config.default
  obtain ⟨texts, printed, _⟩ := bind_eq_ok.mp rendered
  obtain ⟨list, printedList, ⟨⟩⟩ := bind_eq_ok.mp printed
  obtain ⟨first, printedFirst, others⟩ := bind_eq_ok.mp printedList
  obtain ⟨more, _, ⟨⟩⟩ := bind_eq_ok.mp others
  have shown : targetMark ++ ("graphql-type-Query".toList ++ ['"']) <:+: first.render := by
    obtain ⟨⟩ := printedFirst
    decide +kernel
  obtain ⟨before, after, same⟩ := shown
  have linked : first.render =
      before ++ (targetMark ++ ("graphql-type-Query".toList ++ '"' :: after)) := by
    simp only [← same, List.append_assoc, List.cons_append, List.nil_append]
  have known := fragments_links (.parse parse_querySchema) printed List.mem_cons_self linked
    (by decide)
  exact ⟨_, _, before, after, printed, List.mem_cons_self, linked, known.1⟩

end GraphqlReference.Page
