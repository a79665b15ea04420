import GraphqlReference.Proofs.Html.Flow

namespace GraphqlReference.Html

def writeProperty (property : List Char × List Char) : List Char :=
  ' ' :: property.1 ++ '=' :: '"' :: property.2 ++ ['"']

/-- A text in which these elements are open, the innermost one first. It consists of runs and
tags: a closing tag closes the innermost element, and at the end nothing is open. -/
inductive WellNested : List Element → List Char → Prop
  | last {run : List Char} : IsRun run → WellNested [] run
  | opening {opened : List Element} {run : List Char} {element : Element}
      {properties : List (List Char × List Char)} {behind : List Char} :
      IsRun run →
      (∀ property ∈ properties, (∀ c ∈ property.1, c.isAlpha = true) ∧
        ∀ c ∈ property.2, isMarkupChar c = false) →
      WellNested (element :: opened) behind →
      WellNested opened
        (run ++ ('<' :: element.tag.toList ++ properties.flatMap writeProperty ++ '>' :: behind))
  | closing {opened : List Element} {run : List Char} {element : Element} {behind : List Char} :
      IsRun run → WellNested opened behind →
      WellNested (element :: opened) (run ++ ('<' :: '/' :: element.tag.toList ++ '>' :: behind))

namespace Cut

def IsNested : List Element → Cut → Prop
  | opened, last _ => opened = []
  | opened, next _ (.opening element _) behind => behind.IsNested (element :: opened)
  | opened, next _ (.closing element) behind =>
    ∃ outer, opened = element :: outer ∧ behind.IsNested outer

theorem isNested_mapGaps (close : List Char → List Char) {behindTag : Bool} {opened : List Element}
    {cut : Cut} (nested : cut.IsNested opened) : (cut.mapGaps close behindTag).IsNested opened := by
  induction cut generalizing behindTag opened with
  | last run => exact nested
  | next run tag behind ih =>
      cases tag with
      | opening element attributes => exact ih nested
      | closing element =>
          obtain ⟨outer, same, inner⟩ := nested
          exact ⟨outer, same, ih inner⟩

theorem isNested_fillEmpty {previous : List Char} {opened : List Element} {cut : Cut}
    (nested : cut.IsNested opened) : (cut.fillEmpty previous).IsNested opened := by
  induction cut generalizing previous opened with
  | last run => exact nested
  | next run tag behind ih =>
      cases tag with
      | opening element attributes => exact ih nested
      | closing element =>
          obtain ⟨outer, same, inner⟩ := nested
          exact ⟨outer, same, ih inner⟩

theorem wellNested_write {opened : List Element} {cut : Cut} (clean : cut.IsClean)
    (nested : cut.IsNested opened) : WellNested opened cut.write := by
  induction cut generalizing opened with
  | last run =>
      obtain rfl : opened = [] := nested
      exact .last clean
  | next run tag behind ih =>
      obtain ⟨runClean, plain, behindClean⟩ := clean
      cases tag with
      | opening element attributes =>
          let properties := attributes.map fun property => (property.name.toList, property.value)
          have written : attributes.flatMap Attribute.write = properties.flatMap writeProperty := by
            rw [List.flatMap_map]
            exact List.flatMap_congr fun property _ => property.write_eq
          have allowed : ∀ property ∈ properties, (∀ c ∈ property.1, c.isAlpha = true) ∧
              ∀ c ∈ property.2, isMarkupChar c = false := by
            intro property member
            obtain ⟨source, inside, rfl⟩ := List.mem_map.mp member
            have letters : source.name.toList.all Char.isAlpha = true := by
              cases source <;> simp only [Attribute.name] <;> decide
            exact ⟨List.all_eq_true.mp letters,
              fun _ => Attribute.value_plain (List.all_eq_true.mp plain source inside)⟩
          have text := WellNested.opening runClean allowed (ih behindClean nested)
          rw [← written] at text
          simpa only [Cut.write, Tag.write, Tag.content, List.cons_append, List.append_assoc,
            List.nil_append] using text
      | closing element =>
          obtain ⟨outer, rfl, inner⟩ := nested
          have text : WellNested (element :: outer) _ := .closing runClean (ih behindClean inner)
          simpa only [Cut.write, Tag.write, Tag.content, List.cons_append, List.append_assoc,
            List.nil_append] using text

end Cut

theorem ampersandsEscaped_tag {tag : Tag} (plain : tag.isPlain = true) :
    AmpersandsEscaped tag.write := by
  have open' : AmpersandsEscaped ['<'] := ampersandsEscaped_of_not_mem (by decide)
  have close : AmpersandsEscaped ['>'] := ampersandsEscaped_of_not_mem (by decide)
  have name : ∀ element : Element, '&' ∉ element.tag.toList := by
    intro element
    cases element <;> simp only [Element.tag] <;> decide
  refine (open'.append ?_).append close
  cases tag with
  | closing element =>
      refine ampersandsEscaped_of_not_mem fun member => ?_
      rcases List.mem_cons.mp member with same | inside
      · exact absurd same (by decide)
      · exact name element inside
  | opening element attributes =>
      refine (ampersandsEscaped_of_not_mem (name element)).append ?_
      induction attributes with
      | nil => exact ampersandsEscaped_of_not_mem List.not_mem_nil
      | cons first rest ih =>
          obtain ⟨firstPlain, restPlain⟩ := Bool.and_eq_true_iff.mp plain
          have head : AmpersandsEscaped (' ' :: first.name.toList ++ ['=', '"']) := by
            refine ampersandsEscaped_of_not_mem ?_
            cases first <;> simp only [Attribute.name] <;> decide
          have last : AmpersandsEscaped ['"'] := ampersandsEscaped_of_not_mem (by decide)
          have split : first.write =
              (' ' :: first.name.toList ++ ['=', '"']) ++ first.value ++ ['"'] := by
            simp [first.write_eq]
          rw [List.flatMap_cons, split]
          exact ((head.append (Attribute.ampersandsEscaped_value firstPlain)).append last).append
            (ih restPlain)

theorem ampersandsEscaped_spacer : AmpersandsEscaped Piece.spacer.write :=
  ampersandsEscaped_entity (by decide)

namespace Cut

/-- Every ampersand in the runs of a cut begins an entity. -/
def IsEscaped : Cut → Prop
  | last run => AmpersandsEscaped run
  | next run _ behind => AmpersandsEscaped run ∧ behind.IsEscaped

theorem ampersandsEscaped_closeRun {run : List Char} (escaped : AmpersandsEscaped run) :
    AmpersandsEscaped (closeRun run) := by
  unfold closeRun mergeSpacerRun
  split
  · exact ampersandsEscaped_spacer
  · unfold dropBlankRun
    split
    · exact ampersandsEscaped_of_not_mem List.not_mem_nil
    · exact escaped

theorem isEscaped_settle {behindTag : Bool} {previous : List Char} {cut : Cut}
    (escaped : cut.IsEscaped) : (cut.settle behindTag previous).IsEscaped := by
  unfold settle
  induction cut generalizing behindTag previous with
  | last run => exact escaped
  | next run tag behind ih =>
      obtain ⟨runEscaped, behindEscaped⟩ := escaped
      have kept : AmpersandsEscaped (if behindTag then closeRun run else run) := by
        split
        · exact ampersandsEscaped_closeRun runEscaped
        · exact runEscaped
      refine ⟨?_, ih behindEscaped⟩
      by_cases filled : (if behindTag then closeRun run else run) = [] ∧ previous = lineOpening ∧
          tag.write = lineClosing
      · rw [if_pos filled]
        exact ampersandsEscaped_spacer
      · rw [if_neg filled]
        exact kept

theorem ampersandsEscaped_write {cut : Cut} (clean : cut.IsClean) (escaped : cut.IsEscaped) :
    AmpersandsEscaped cut.write := by
  induction cut with
  | last run => exact escaped
  | next run tag behind ih =>
      obtain ⟨_, plain, behindClean⟩ := clean
      exact escaped.1.append ((ampersandsEscaped_tag plain).append (ih behindClean escaped.2))

end Cut

theorem Fragment.isEscaped_cutFrom {run : List Char} (escaped : AmpersandsEscaped run)
    (fragment : Fragment) : (cutFrom run fragment).IsEscaped := by
  have none : AmpersandsEscaped [] := ampersandsEscaped_of_not_mem List.not_mem_nil
  induction fragment generalizing run with
  | nil => exact escaped
  | cons piece rest ih =>
      cases piece with
      | opening element attributes => exact ⟨escaped, ih none⟩
      | closing element => exact ⟨escaped, ih none⟩
      | text content => exact ih (escaped.append (ampersandsEscaped_escape content))
      | quotes count =>
          refine ih (escaped.append (ampersandsEscaped_of_not_mem fun member => ?_))
          exact absurd (List.eq_of_mem_replicate member) (by decide)
      | spacer => exact ih (escaped.append ampersandsEscaped_spacer)

section

variable {rules : Rules} {place behind : Place} {laid shown : Fragment}

theorem Laid.isNested (flow : Laid rules place laid shown behind) (ends : behind.opened = [])
    (run : List Char) : (Fragment.cutFrom run laid).IsNested place.opened := by
  induction flow generalizing run with
  | nil => exact ends
  | piece step _ ih =>
      cases step with
      | opening => exact ih ends []
      | closing => exact ⟨_, rfl, ih ends []⟩
      | spacer | text | moreText | quotes | lastQuotes => exact ih ends _
  | layout _ _ _ ih => exact ih ends _
  | emptyLine _ _ ih => exact ⟨_, rfl, ih ends []⟩

/-- What has been laid out by the rules is well nested in a finished document. -/
theorem Laid.wellNested (flow : Laid rules place laid shown behind) (starts : place.opened = [])
    (ends : behind.opened = []) :
    WellNested [] (normalize laid.write) ∧ AmpersandsEscaped (normalize laid.write) := by
  have clean := Fragment.isClean_cutFrom isRun_nil flow.isPlain
  have written : normalize laid.write = ((Fragment.cutFrom [] laid).settle false []).write :=
    Fragment.normalize_write flow.isPlain
  have settled : ((Fragment.cutFrom [] laid).settle false []).IsClean :=
    Cut.isClean_fillEmpty (Cut.isClean_mapGaps (fun _ => isRun_closeRun) clean) []
  have nested := flow.isNested ends []
  rw [starts] at nested
  rw [written]
  exact ⟨Cut.wellNested_write settled
      (Cut.isNested_fillEmpty (Cut.isNested_mapGaps closeRun nested)),
    Cut.ampersandsEscaped_write settled (Cut.isEscaped_settle
      (Fragment.isEscaped_cutFrom (ampersandsEscaped_of_not_mem List.not_mem_nil) laid))⟩

end

end GraphqlReference.Html
