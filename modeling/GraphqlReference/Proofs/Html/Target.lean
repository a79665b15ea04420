import GraphqlReference.Proofs.Html.Nesting

namespace GraphqlReference.Html

/-!
Where the text of a page links: only in the attributes of its opening tags. Quotation marks
outside of tags stand at the ends of a run, so no link can be read into a text.
-/

/-- What stands in front of the name that a link leads to. -/
def targetMark : List Char :=
  "href=\"#".toList

/-- Quotation marks stand at the ends of a run only. -/
def QuotesOutside (run : List Char) : Prop :=
  ∃ count inner count', run = List.replicate count '"' ++ (inner ++ List.replicate count' '"') ∧
    '"' ∉ inner

theorem not_mem_quotes {c : Char} (other : c ≠ '"') (count : Nat) : c ∉ List.replicate count '"' :=
  fun member => other (List.eq_of_mem_replicate member)

theorem QuotesOutside.no_target {run before after : List Char} (outside : QuotesOutside run) :
    run ≠ before ++ (targetMark ++ after) := by
  rintro rfl
  obtain ⟨count, inner, count', same, unquoted⟩ := outside
  have split : List.replicate count '"' ++ (inner ++ List.replicate count' '"') =
      before ++ 'h' :: ("ref=\"".toList ++ '#' :: after) := same.symm
  rcases Text.append_eq_append_cons split with ⟨rest, early, _⟩ | ⟨rest, _, late⟩
  · exact not_mem_quotes (c := 'h') (by decide) count (by simp [early])
  · rcases Text.append_eq_append_cons late with ⟨rest, inside, behind⟩ | ⟨rest, _, last⟩
    · rcases Text.append_eq_append_cons behind.symm with ⟨_, early, _⟩ | ⟨_, _, last⟩
      · refine unquoted ?_
        rw [inside, early]
        simp
      · exact not_mem_quotes (c := '#') (by decide) count' (by simp [last])
    · exact not_mem_quotes (c := 'h') (by decide) count' (by simp [last])

/-- Where the quotation marks of a run stand, as far as it goes. -/
inductive Quoted : Run → List Char → Prop
  | bare {fresh : Bool} : Quoted (.bare fresh) []
  | loose {fresh : Bool} {text : List Char} : '"' ∉ text → Quoted (.loose fresh) text
  | spaced {text : List Char} : '"' ∉ text → Quoted .spaced text
  | filled {count : Nat} {inner : List Char} : '"' ∉ inner →
      Quoted .filled (List.replicate count '"' ++ inner)
  | shut {count count' : Nat} {inner : List Char} : '"' ∉ inner →
      Quoted .shut (List.replicate count '"' ++ (inner ++ List.replicate count' '"'))

theorem Quoted.outside {run : Run} {text : List Char} (quoted : Quoted run text) :
    QuotesOutside text := by
  cases quoted with
  | bare => exact ⟨0, [], 0, rfl, List.not_mem_nil⟩
  | loose unquoted | spaced unquoted => exact ⟨0, text, 0, by simp, unquoted⟩
  | @filled count inner unquoted => exact ⟨count, inner, 0, by simp, unquoted⟩
  | @shut count count' inner unquoted => exact ⟨count, inner, count', rfl, unquoted⟩

theorem not_mem_write_text (content : List Char) : '"' ∉ (Piece.text content).write :=
  markupChar_not_mem_escape rfl content

theorem Quoted.spacer {run : Run} {text : List Char} (quoted : Quoted run text)
    (empty : run.isEmpty = true) : Quoted .spaced (text ++ Piece.spacer.write) := by
  have spacer : '"' ∉ Piece.spacer.write := by decide
  cases quoted with
  | bare => exact .spaced spacer
  | loose clear => exact .spaced (List.not_mem_append clear spacer)
  | spaced | filled | shut => cases empty

theorem Quoted.loosen {run : Run} {text blanks : List Char} (quoted : Quoted run text)
    (inGap : run.isOpen = true) : Quoted run.loosen (text ++ (Piece.text blanks).write) := by
  have escaped := not_mem_write_text blanks
  cases quoted with
  | bare => exact .loose escaped
  | loose clear => exact .loose (List.not_mem_append clear escaped)
  | spaced clear => exact .spaced (List.not_mem_append clear escaped)
  | filled | shut => cases inGap

section

variable {rules : Rules} {place behind : Place} {laid shown : Fragment}

theorem Laid.quotesOutside (flow : Laid rules place laid shown behind) {text : List Char}
    (quoted : Quoted place.run text) :
    ∀ run ∈ (Fragment.cutFrom text laid).runs, QuotesOutside run := by
  induction flow generalizing text with
  | nil => exact List.forall_mem_singleton.mpr quoted.outside
  | piece step _ ih =>
      cases step with
      | opening => exact List.forall_mem_cons.mpr ⟨quoted.outside, ih .bare⟩
      | closing => exact List.forall_mem_cons.mpr ⟨quoted.outside, ih .bare⟩
      | spacer empty => exact ih (quoted.spacer empty)
      | @text _ _ content _ =>
          cases quoted
          have run : Quoted .filled (List.replicate 0 '"' ++ (Piece.text content).write) :=
            .filled (not_mem_write_text content)
          exact ih run
      | @moreText _ content =>
          cases quoted with
          | filled clear =>
              refine ih ?_
              rw [List.append_assoc]
              exact .filled (List.not_mem_append clear (not_mem_write_text content))
      | @quotes _ _ count _ =>
          cases quoted
          have run : Quoted .filled (List.replicate count '"' ++ []) := .filled List.not_mem_nil
          rw [List.append_nil] at run
          exact ih run
      | @lastQuotes _ count =>
          cases quoted with
          | filled clear =>
              refine ih ?_
              rw [List.append_assoc]
              exact .shut clear
  | layout inGap _ _ ih => exact ih (quoted.loosen inGap)
  | emptyLine _ _ ih =>
      have empty : Quoted (.bare true) [] := .bare
      exact List.forall_mem_cons.mpr
        ⟨quoted.outside, List.forall_mem_cons.mpr ⟨empty.outside, ih .bare⟩⟩

end

theorem Attribute.eq_target_of_name {property : Attribute} {lead before : List Char}
    (ends : lead ++ (' ' :: property.name.toList ++ ['=']) = before ++ "href=".toList) :
    ∃ target, property = .target target ∧ before = lead ++ [' '] := by
  have endings : ∀ {first last : List Char},
      ' ' :: property.name.toList ++ ['='] = first ++ last → last.length = 3 →
      last = "ef=".toList := by
    intro first last written three
    have mark : "href=".toList = "hr".toList ++ "ef=".toList := by decide
    rw [written, mark, ← List.append_assoc, ← List.append_assoc] at ends
    exact List.append_inj_right' ends three
  cases property with
  | target target =>
      have written : ' ' :: (Attribute.target target).name.toList ++ ['='] =
          [' '] ++ "href=".toList := by
        simp only [name]
        decide
      rw [written, ← List.append_assoc] at ends
      exact ⟨target, rfl, (List.append_cancel_right ends).symm⟩
  | style style =>
      have written : ' ' :: (Attribute.style style).name.toList ++ ['='] =
          " cla".toList ++ "ss=".toList := by
        simp only [name]
        decide
      exact absurd (endings written rfl) (by decide)
  | identity identity =>
      have written : ' ' :: (Attribute.identity identity).name.toList ++ ['='] =
          " ".toList ++ "id=".toList := by
        simp only [name]
        decide
      exact absurd (endings written rfl) (by decide)
  | title text =>
      have written : ' ' :: (Attribute.title text).name.toList ++ ['='] =
          " tit".toList ++ "le=".toList := by
        simp only [name]
        decide
      exact absurd (endings written rfl) (by decide)

/-- A target read in the attributes of a tag is the target of one of them. -/
theorem target_of_attributes {lead before after : List Char} {attributes : List Attribute}
    (plain : attributes.all Attribute.isPlain = true) (clear : '"' ∉ lead)
    (same : lead ++ attributes.flatMap Attribute.write = before ++ (targetMark ++ after)) :
    ∃ earlier target later, attributes = earlier ++ .target target :: later ∧
      before = lead ++ earlier.flatMap Attribute.write ++ [' '] ∧
      after = escape target.toList ++ '"' :: later.flatMap Attribute.write := by
  have marked : ∀ rest, targetMark ++ rest = "href=".toList ++ '"' :: '#' :: rest := fun _ => rfl
  have outside : '"' ∉ "href=".toList := by decide
  rw [marked] at same
  induction attributes generalizing lead before with
  | nil =>
      refine absurd ?_ clear
      rw [List.flatMap_nil, List.append_nil] at same
      simp [same]
  | cons first rest ih =>
      obtain ⟨firstPlain, restPlain⟩ := Bool.and_eq_true_iff.mp plain
      have name : '"' ∉ lead ++ (' ' :: first.name.toList ++ ['=']) := by
        intro member
        rcases List.mem_append.mp member with early | late
        · exact clear early
        · revert late
          cases first <;> simp only [Attribute.name] <;> decide
      have value : '"' ∉ first.value := fun member =>
        Bool.noConfusion (Attribute.value_plain firstPlain member)
      have split : lead ++ (first :: rest).flatMap Attribute.write =
          lead ++ (' ' :: first.name.toList ++ ['=']) ++
            '"' :: (first.value ++ '"' :: rest.flatMap Attribute.write) := by
        simp [first.write_eq]
      rw [split] at same
      rcases Text.word_before_first name outside same with ⟨ends, behind⟩ | ⟨inner, early, inside⟩
      · obtain ⟨target, rfl, here⟩ := Attribute.eq_target_of_name ends
        have after' :
            '#' :: escape target.toList ++ '"' :: rest.flatMap Attribute.write = '#' :: after :=
          behind
        exact ⟨[], target, rest, rfl, by simp [here], (List.cons.inj after').2.symm⟩
      · rcases Text.word_before_first value outside inside with
          ⟨_, behind⟩ | ⟨inner', late, inside'⟩
        · cases rest with
          | nil => cases behind
          | cons next rest =>
              rw [List.flatMap_cons, next.write_eq] at behind
              exact absurd (List.cons.inj behind).1 (by decide)
        · obtain ⟨earlier, target, later, rfl, here, behind⟩ :=
            ih restPlain List.not_mem_nil inside'
          refine ⟨first :: earlier, target, later, rfl, ?_, behind⟩
          simp [early, late, here, first.write_eq]

theorem not_mem_closing (element : Element) : '"' ∉ (Tag.closing element).content := by
  cases element <;> simp only [Tag.content, Element.tag] <;> decide

/-- A target read in a text is the target of one of its tags. -/
theorem Cut.target_of_write {cut : Cut} (clean : cut.IsClean)
    (outside : ∀ run ∈ cut.runs, QuotesOutside run) {before name after : List Char}
    (unquoted : '"' ∉ name) (same : cut.write = before ++ (targetMark ++ (name ++ '"' :: after))) :
    ∃ element earlier target later lead,
      Tag.opening element (earlier ++ .target target :: later) ∈ cut.tags ∧
      name = escape target.toList ∧
      before = lead ++ ('<' :: element.tag.toList ++ earlier.flatMap Attribute.write ++ [' ']) := by
  induction cut generalizing before with
  | last run => exact absurd same (outside run List.mem_cons_self).no_target
  | next run tag behind ih =>
      obtain ⟨_, plain, behindClean⟩ := clean
      obtain ⟨runOutside, behindOutside⟩ := List.forall_mem_cons.mp outside
      have split : run ++ '<' :: (tag.content ++ '>' :: behind.write) =
          before ++ (targetMark ++ (name ++ '"' :: after)) := by
        rw [← same]
        simp [Cut.write, Tag.write]
      have begins : '<' ∉ targetMark := by decide
      have ends : '>' ∉ targetMark := by decide
      rcases Text.word_beside begins split with
        ⟨_, inRun, _⟩ | ⟨inner, early, inTag⟩
      · exact absurd inRun runOutside.no_target
      · rcases Text.word_beside ends inTag with
          ⟨rest, inContent, written⟩ | ⟨inner', late, inBehind⟩
        · cases tag with
          | closing element =>
              refine absurd ?_ (not_mem_closing element)
              have quote : '"' ∈ targetMark := by decide
              simp [inContent, quote]
          | opening element attributes =>
              have name' : '"' ∉ element.tag.toList := by
                cases element <;> simp only [Element.tag] <;> decide
              obtain ⟨earlier, target, later, rfl, here, there⟩ :=
                target_of_attributes plain name' inContent
              rw [there, List.append_assoc, List.cons_append] at written
              have named := (Text.append_cons_inj_of_not_mem unquoted
                (markupChar_not_mem_escape rfl target.toList) written).1
              exact ⟨element, earlier, target, later, run, List.mem_cons_self, named,
                by simp [early, here]⟩
        · obtain ⟨element, earlier, target, later, lead, member, named, here⟩ :=
            ih behindClean behindOutside inBehind
          refine ⟨element, earlier, target, later, run ++ '<' :: (tag.content ++ '>' :: lead),
            List.mem_cons_of_mem _ member, named, ?_⟩
          simp [early, late, here]

theorem Fragment.mem_of_mem_tags {run : List Char} {fragment : Fragment} {element : Element}
    {attributes : List Attribute}
    (member : Tag.opening element attributes ∈ (cutFrom run fragment).tags) :
    Piece.opening element attributes ∈ fragment := by
  induction fragment generalizing run with
  | nil => exact absurd member List.not_mem_nil
  | cons piece rest ih =>
      cases piece with
      | opening element' attributes' =>
          rcases List.mem_cons.mp member with same | behind
          · cases same
            exact List.mem_cons_self
          · exact List.mem_cons_of_mem _ (ih behind)
      | closing element' =>
          rcases List.mem_cons.mp member with same | behind
          · cases same
          · exact List.mem_cons_of_mem _ (ih behind)
      | text | quotes | spacer => exact List.mem_cons_of_mem _ (ih member)

section

variable {rules : Rules} {place behind : Place} {laid shown : Fragment}

theorem Laid.allowed (flow : Laid rules place laid shown behind) {element : Element}
    {attributes : List Attribute} (member : Piece.opening element attributes ∈ laid) :
    rules.opens element attributes := by
  induction flow with
  | nil => exact absurd member List.not_mem_nil
  | piece step _ ih =>
      rcases List.mem_cons.mp member with same | later
      · subst same
        cases step with
        | opening allowed => exact allowed
      · exact ih later
  | layout _ _ _ ih =>
      rcases List.mem_cons.mp member with same | later
      · cases same
      · exact ih later
  | emptyLine _ _ ih =>
      rcases List.mem_append.mp member with here | later
      · rcases List.mem_cons.mp here with same | rest
        · cases same
          exact rules.styled (by decide) (by decide)
        · simp at rest
      · exact ih later

/-- A target read in what is laid out is the target of a tag that the rules allow. -/
theorem Laid.target_of_write (flow : Laid rules place laid shown behind)
    (starts : place.run = .bare false) {before name after : List Char} (unquoted : '"' ∉ name)
    (same : laid.write = before ++ (targetMark ++ (name ++ '"' :: after))) :
    ∃ element earlier target later lead, rules.opens element (earlier ++ .target target :: later) ∧
      name = escape target.toList ∧
      before = lead ++ ('<' :: element.tag.toList ++ earlier.flatMap Attribute.write ++ [' ']) := by
  have clean := Fragment.isClean_cutFrom isRun_nil flow.isPlain
  have quoted : Quoted place.run [] := starts ▸ .bare
  have written : (Fragment.cutFrom [] laid).write = _ :=
    (Fragment.write_cutFrom [] laid).trans same
  obtain ⟨element, earlier, target, later, lead, member, named, here⟩ :=
    Cut.target_of_write clean (flow.quotesOutside quoted) unquoted written
  exact ⟨element, earlier, target, later, lead,
    flow.allowed (Fragment.mem_of_mem_tags member), named, here⟩

end

end GraphqlReference.Html
