import GraphqlReference.Proofs.Html.Closing
import GraphqlReference.Proofs.Html.Filling

namespace GraphqlReference.Html

/-- Nothing leads from one tag to the next but what a reader sees, and no line is empty. -/
structure IsNormal (text : List Char) : Prop where
  noBlankGap : ∀ before run after, run ≠ [] → (∀ c ∈ run, Text.isBlank c = true) →
    text ≠ before ++ '>' :: (run ++ '<' :: after)
  oneSpacer : ∀ before run after, IsFiller true run →
    text = before ++ '>' :: (run ++ '<' :: after) → run = Piece.spacer.write
  noEmptyLine : ¬ Fragment.emptyLine.write <:+: text

/-- No gap of a text is left to close. -/
def IsClosed (text : List Char) : Prop :=
  ∀ behind, '>' :: behind <:+ text → closeGap behind = behind

theorem isClosed_cons {c : Char} {rest : List Char} :
    IsClosed (c :: rest) ↔ (c = '>' → closeGap rest = rest) ∧ IsClosed rest := by
  constructor
  · intro closed
    refine ⟨?_, fun behind suffix => closed behind (suffix.trans (List.suffix_cons c rest))⟩
    rintro rfl
    exact closed rest List.suffix_rfl
  · rintro ⟨here, later⟩ behind suffix
    rcases List.suffix_cons_iff.mp suffix with same | inside
    · obtain ⟨rfl, rfl⟩ := List.cons.inj same
      exact here rfl
    · exact later behind inside

theorem isClosed_append {run rest : List Char} (inside : '>' ∉ run) :
    IsClosed (run ++ rest) ↔ IsClosed rest := by
  induction run with
  | nil => rfl
  | cons c run ih =>
      obtain ⟨different, inside⟩ := not_or.mp (mt List.mem_cons.mpr inside)
      rw [List.cons_append, isClosed_cons, ih inside]
      exact and_iff_right fun tagEnd => absurd tagEnd.symm different

theorem IsClosed.suffix {text behind : List Char} (closed : IsClosed text)
    (suffix : behind <:+ text) : IsClosed behind :=
  fun _ inside => closed _ (inside.trans suffix)

theorem closeGap_cases (behind : List Char) :
    (∃ spaced run rest, IsFiller spaced run ∧ behind = run ++ '<' :: rest ∧
      closeGap behind = leftOver spaced ++ '<' :: rest) ∨
    ((∀ spaced run rest, IsFiller spaced run → behind ≠ run ++ '<' :: rest) ∧
      closeGap behind = behind) := by
  by_cases gap : ∃ spaced run rest, IsFiller spaced run ∧ behind = run ++ '<' :: rest
  · obtain ⟨spaced, run, rest, filler, rfl⟩ := gap
    exact .inl ⟨spaced, run, rest, filler, rfl, closeGap_filler filler rest⟩
  · refine .inr ⟨fun spaced run rest filler same => gap ⟨spaced, run, rest, filler, same⟩, ?_⟩
    refine closesGaps_closeGap.other ?_
    rintro run _ ⟨_, spaced, filler, rfl⟩ begins
    obtain ⟨rest, same⟩ := exists_tag_of_prefix begins
    exact gap ⟨spaced, run, rest, filler, same⟩

theorem closeGap_closeGap (behind : List Char) : closeGap (closeGap behind) = closeGap behind := by
  rcases closeGap_cases behind with ⟨spaced, _, rest, _, _, closed⟩ | ⟨_, same⟩
  · rw [closed, closeGap_filler (isFiller_leftOver spaced)]
  · rw [same, same]

theorem isClosed_closeGap {behind : List Char} (closed : IsClosed behind) :
    IsClosed (closeGap behind) := by
  rcases closeGap_cases behind with ⟨spaced, run, rest, filler, rfl, changed⟩ | ⟨_, same⟩
  · have left := (isFiller_leftOver spaced).isRun.greater
    rw [changed, isClosed_append left]
    exact (isClosed_append filler.isRun.greater).mp closed
  · rwa [same]

theorem isClosed_closeGaps (text : List Char) : IsClosed (closeGaps text) := by
  rw [closeGaps_eq_changeGaps]
  induction text with
  | nil => exact fun _ suffix => absurd (List.suffix_nil.mp suffix) (List.cons_ne_nil _ _)
  | cons c rest ih =>
      by_cases tagEnd : c = '>'
      · subst tagEnd
        exact isClosed_cons.mpr ⟨fun _ => closeGap_closeGap _, isClosed_closeGap ih⟩
      · rw [changeGaps_cons tagEnd]
        exact isClosed_cons.mpr ⟨fun here => absurd here tagEnd, ih⟩

theorem IsClosed.closeGaps {text : List Char} (closed : IsClosed text) :
    closeGaps text = text := by
  rw [closeGaps_eq_changeGaps]
  induction text with
  | nil => rfl
  | cons c rest ih =>
      obtain ⟨here, later⟩ := isClosed_cons.mp closed
      by_cases tagEnd : c = '>'
      · have step : changeGaps closeGap (c :: rest) = c :: closeGap (changeGaps closeGap rest) :=
          if_pos tagEnd
        rw [step, ih later, here tagEnd]
      · rw [changeGaps_cons tagEnd, ih later]

theorem closeGap_fillEmptyLines {rest : List Char} (closed : closeGap rest = rest) :
    closeGap (fillEmptyLines rest) = fillEmptyLines rest := by
  rcases closeGap_cases (fillEmptyLines rest) with
    ⟨spaced, run, filled, filler, same, changed⟩ | ⟨_, same⟩
  · obtain ⟨after, rfl⟩ := (fillEmptyLines_tag_iff filler.isRun.less).mp ⟨filled, same⟩
    rw [closeGap_filler filler] at closed
    rw [changed, same, List.append_cancel_right closed]
  · exact same

/-- Filling empty lines opens no gap: what is filled in is a single non-breaking space. -/
theorem IsClosed.fillEmptyLines {text : List Char} (closed : IsClosed text) :
    IsClosed (fillEmptyLines text) := by
  induction text with
  | nil => exact closed
  | cons c rest ih =>
      obtain ⟨here, later⟩ := isClosed_cons.mp closed
      have whole : IsClosed (c :: Html.fillEmptyLines rest) :=
        isClosed_cons.mpr ⟨fun tagEnd => closeGap_fillEmptyLines (here tagEnd), ih later⟩
      rw [fillEmptyLines_cons]
      rcases fillFirstLine_cases (c :: Html.fillEmptyLines rest) with
        ⟨_, unchanged⟩ | ⟨behind, same, filled⟩
      · rwa [unchanged]
      · rw [same] at whole
        have ending : IsClosed (lineClosing ++ behind) := whole.suffix (List.suffix_append _ _)
        have spacer : '>' ∉ Piece.spacer.write := by decide
        have shown : closeGap (Piece.spacer.write ++ (lineClosing ++ behind)) = _ :=
          closeGap_filler (isFiller_leftOver true) _
        have opened : '>' ∉ '<' :: "div class=\"line\"".toList := by decide
        have split : lineOpening ++ (Piece.spacer.write ++ (lineClosing ++ behind)) =
            ('<' :: "div class=\"line\"".toList) ++
              '>' :: (Piece.spacer.write ++ (lineClosing ++ behind)) := rfl
        rw [filled, split, isClosed_append opened]
        exact isClosed_cons.mpr ⟨fun _ => shown, (isClosed_append spacer).mpr ending⟩

theorem emptyLine_infix_append {run rest : List Char} (inside : '<' ∉ run) :
    Fragment.emptyLine.write <:+: run ++ rest ↔ Fragment.emptyLine.write <:+: rest := by
  induction run with
  | nil => rfl
  | cons c run ih =>
      obtain ⟨different, inside⟩ := not_or.mp (mt List.mem_cons.mpr inside)
      rw [List.cons_append, List.infix_cons_iff, ih inside]
      exact or_iff_right fun ⟨_, same⟩ => different (List.cons.inj same).1

theorem no_emptyLine_fillEmptyLines (text : List Char) :
    ¬ Fragment.emptyLine.write <:+: fillEmptyLines text := by
  induction text with
  | nil => decide
  | cons c rest ih =>
      rw [fillEmptyLines_cons]
      rcases fillFirstLine_cases (c :: fillEmptyLines rest) with
        ⟨other, unchanged⟩ | ⟨behind, same, filled⟩
      · rw [unchanged, List.infix_cons_iff]
        exact not_or.mpr ⟨other, ih⟩
      · have inside : '<' ∉ lineOpening.tail ++ Piece.spacer.write := by decide
        have split : lineOpening ++ (Piece.spacer.write ++ (lineClosing ++ behind)) =
            '<' :: ((lineOpening.tail ++ Piece.spacer.write) ++ (lineClosing ++ behind)) := rfl
        have opened : '<' :: (lineOpening.tail ++ (lineClosing ++ behind)) =
            c :: fillEmptyLines rest := same.symm
        rw [filled, split, List.infix_cons_iff, emptyLine_infix_append inside]
        refine not_or.mpr ⟨?_, fun later => ih ?_⟩
        · rintro ⟨after, begins⟩
          have differs : lineOpening ++ (lineClosing ++ after) =
              lineOpening ++ (Piece.spacer.write ++ (lineClosing ++ behind)) := begins
          exact absurd (List.cons.inj (List.append_cancel_left differs)).1 (by decide)
        · rw [← (List.cons.inj opened).2]
          exact later.trans (List.suffix_append _ _).isInfix

theorem fillEmptyLines_eq_self {text : List Char}
    (none : ¬ Fragment.emptyLine.write <:+: text) : fillEmptyLines text = text := by
  induction text with
  | nil => rfl
  | cons c rest ih =>
      obtain ⟨here, later⟩ := not_or.mp (mt List.infix_cons_iff.mpr none)
      rw [fillEmptyLines_cons, ih later, fillFirstLine_other here]

theorem isNormal_iff {text : List Char} :
    IsNormal text ↔ IsClosed text ∧ ¬ Fragment.emptyLine.write <:+: text := by
  constructor
  · intro normal
    refine ⟨fun behind suffix => ?_, normal.noEmptyLine⟩
    obtain ⟨before, same⟩ := suffix
    rcases closeGap_cases behind with ⟨spaced, run, rest, filler, rfl, changed⟩ | ⟨_, unchanged⟩
    · rw [changed]
      cases spaced with
      | true => rw [normal.oneSpacer before run rest filler same.symm]; rfl
      | false =>
          by_cases none : run = []
          · rw [none]
            rfl
          · exact absurd same.symm
              (normal.noBlankGap before run rest none (isFiller_blanks.mp filler))
    · exact unchanged
  · rintro ⟨closed, none⟩
    have left : ∀ {before run after spaced}, IsFiller spaced run →
        text = before ++ '>' :: (run ++ '<' :: after) → leftOver spaced = run := by
      rintro before run after spaced filler rfl
      have same := closed _ (List.suffix_append before _)
      rw [closeGap_filler filler] at same
      exact List.append_cancel_right same
    refine ⟨fun before run after some blanks same => ?_,
      fun before run after filler same => ?_, none⟩
    · exact some (left (isFiller_blanks.mpr blanks) same).symm
    · exact (left filler same).symm

theorem isNormal_normalize (text : List Char) : IsNormal (normalize text) :=
  isNormal_iff.mpr ⟨(isClosed_closeGaps text).fillEmptyLines, no_emptyLine_fillEmptyLines _⟩

theorem IsNormal.normalize {text : List Char} (normal : IsNormal text) :
    normalize text = text := by
  obtain ⟨closed, none⟩ := isNormal_iff.mp normal
  rw [Html.normalize, closed.closeGaps, fillEmptyLines_eq_self none]

theorem normalize_eq_self_iff {text : List Char} : normalize text = text ↔ IsNormal text :=
  ⟨fun same => same ▸ isNormal_normalize text, IsNormal.normalize⟩

end GraphqlReference.Html
