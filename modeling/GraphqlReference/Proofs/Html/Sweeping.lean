import GraphqlReference.Proofs.Html.Closing
import GraphqlReference.Proofs.Html.Filling

namespace GraphqlReference.Html

/-!
A finished document is made in one pass over a text for its gaps, and in another one for its empty
lines. It does not matter that the gaps are closed in two passes, the second of them over what the
first one has left.
-/

/-- A gap from the end of a tag to the beginning of the next one, both of which stay. -/
def betweenTags (lead : Text.Pattern Char) : Text.Pattern Char :=
  fun word other => ∃ run left, lead run left ∧ word = '>' :: (run ++ ['<']) ∧
    other = '>' :: (left ++ ['<'])

section

variable {lead : Text.Pattern Char} {change : List Char → List Char}
  (closes : ClosesGaps lead change)
include closes

theorem ClosesGaps.isDefinite
    (unique : ∀ {run left left'}, lead run left → lead run left' → left = left') :
    (betweenTags lead).IsDefinite where
  nonempty := by
    rintro _ _ ⟨_, _, _, rfl, _⟩
    exact List.cons_ne_nil _ _
  unique := by
    rintro _ _ _ _ rest rest' ⟨run, left, leads, rfl, rfl⟩ ⟨run', left', leads', rfl, rfl⟩ same
    simp only [List.cons_append, List.append_assoc, List.nil_append, List.cons.injEq,
      true_and] at same
    obtain ⟨rfl, _⟩ := Text.append_cons_inj_of_not_mem (closes.run leads).less
      (closes.run leads').less same
    rw [unique leads leads']
    exact ⟨rfl, rfl⟩

theorem ClosesGaps.changeGaps_closed {run left : List Char} (leads : lead run left)
    (rest : List Char) : changeGaps change ('>' :: (run ++ '<' :: rest)) =
      '>' :: (left ++ '<' :: changeGaps change rest) := by
  have step : changeGaps change ('>' :: (run ++ '<' :: rest)) =
      '>' :: change (changeGaps change (run ++ '<' :: rest)) := rfl
  rw [step, changeGaps_append change (closes.run leads).greater, changeGaps_cons (by decide),
    closes.closed leads]

theorem ClosesGaps.changeGaps_other {c : Char} {rest : List Char}
    (nothing : ∀ word other, betweenTags lead word other → ¬ word <+: c :: rest) :
    changeGaps change (c :: rest) = c :: changeGaps change rest := by
  by_cases tagEnd : c = '>'
  · subst tagEnd
    have other : ∀ run left, lead run left → ¬ run ++ ['<'] <+: changeGaps change rest := by
      intro run left leads begins
      refine nothing _ _ ⟨run, left, leads, rfl, rfl⟩ (List.cons_prefix_cons.mpr ⟨rfl, ?_⟩)
      exact (prefix_changeGaps_iff (closes.inside leads) change).mp begins
    exact congrArg ('>' :: ·) (closes.other other)
  · exact changeGaps_cons tagEnd change rest

/-- A change that closes gaps from the end of a text to its beginning replaces them in the order in
which they stand. -/
theorem ClosesGaps.replaced (text : List Char) :
    Text.Replaced (betweenTags lead) text (changeGaps change text) := by
  generalize bound : text.length = length
  induction length using Nat.strongRecOn generalizing text with
  | ind length ih =>
      subst bound
      by_cases gap : ∃ run left rest, lead run left ∧ text = '>' :: (run ++ '<' :: rest)
      · obtain ⟨run, left, rest, leads, rfl⟩ := gap
        have behind := ih rest.length (by simp; omega) rest rfl
        have whole := Text.Replaced.replaced ⟨run, left, leads, rfl, rfl⟩ behind
        rw [closes.changeGaps_closed leads]
        simpa using whole
      · cases text with
        | nil => exact .nil
        | cons c rest =>
            have nothing : ∀ word other, betweenTags lead word other → ¬ word <+: c :: rest := by
              rintro _ _ ⟨run, left, leads, rfl, rfl⟩ ⟨after, same⟩
              exact gap ⟨run, left, after, leads, by simp [← same]⟩
            rw [closes.changeGaps_other nothing]
            exact .kept nothing (ih rest.length (by simp) rest rfl)

end

theorem fillerLead_unique {run left left' : List Char} (leads : fillerLead run left)
    (leads' : fillerLead run left') : left = left' := by
  obtain ⟨_, spaced, filler, rfl⟩ := leads
  obtain ⟨_, spaced', filler', rfl⟩ := leads'
  rw [filler.eq_of_isFiller filler']

/-- The finished document is what one pass over all gaps and one over all empty lines make of a
text, and also what they make of it with a pass for the gaps without non-breaking spaces and another
one for those with such spaces. -/
theorem normalize_iff_replaced {text result : List Char} :
    ((∃ swept, Text.Replaced (betweenTags fillerLead) text swept ∧
      Text.Replaced emptyLines swept result) ↔ result = normalize text) ∧
    ((∃ dropped merged, Text.Replaced (betweenTags blankLead) text dropped ∧
      Text.Replaced (betweenTags spacerLead) dropped merged ∧
      Text.Replaced emptyLines merged result) ↔ result = normalize text) := by
  have lines := replaced_fillEmptyLines (closeGaps text)
  have swept := closesGaps_closeGap.replaced text
  have dropped := closesGaps_dropBlankGap.replaced text
  have merged := closesGaps_mergeSpacerGap.replaced (dropBlankGaps text)
  rw [← closeGaps_eq_changeGaps] at swept
  refine ⟨⟨?_, ?_⟩, ?_, ?_⟩
  · rintro ⟨other, swept', lines'⟩
    obtain rfl := swept'.unique (closesGaps_closeGap.isDefinite fillerLead_unique) swept
    exact lines'.unique isDefinite_emptyLines lines
  · rintro rfl
    exact ⟨_, swept, lines⟩
  · rintro ⟨other, other', dropped', merged', lines'⟩
    have same : ∀ {run left left'}, blankLead run left → blankLead run left' → left = left' :=
      fun leads leads' => leads.2.trans leads'.2.symm
    have same' : ∀ {run left left'}, spacerLead run left → spacerLead run left' → left = left' :=
      fun leads leads' => leads.2.trans leads'.2.symm
    obtain rfl := dropped'.unique (closesGaps_dropBlankGap.isDefinite same) dropped
    obtain rfl := merged'.unique (closesGaps_mergeSpacerGap.isDefinite same') merged
    exact lines'.unique isDefinite_emptyLines lines
  · rintro rfl
    exact ⟨_, _, dropped, merged, lines⟩

end GraphqlReference.Html
