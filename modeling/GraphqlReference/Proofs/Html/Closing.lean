import GraphqlReference.Proofs.Html.Gap
import GraphqlReference.Proofs.Text.Replacing

namespace GraphqlReference.Html

/-!
The gaps of any text, whether or not the text is made of tags. A gap that is closed is replaced as a
whole, and closing all gaps from the end of a text to its beginning is replacing them in the order
in which they stand.
-/

/-- Blanks and non-breaking spaces, with or without any of the latter. -/
inductive IsFiller : Bool → List Char → Prop
  | nil : IsFiller false []
  | blank {spaced : Bool} {c : Char} {run : List Char} : Text.isBlank c = true →
      IsFiller spaced run → IsFiller spaced (c :: run)
  | spacer {spaced : Bool} {run : List Char} : IsFiller spaced run →
      IsFiller true (Piece.spacer.write ++ run)

/-- What is left of the filler between two tags. -/
def leftOver (spaced : Bool) : List Char :=
  if spaced then Piece.spacer.write else []

section

variable {spaced : Bool} {c : Char} {run text : List Char}

theorem isRun_blank (blank : Text.isBlank c = true) : IsRun [c] := by
  constructor <;> rintro (_ | ⟨_, ⟨⟩⟩) <;> exact absurd blank (by decide)

theorem IsFiller.isRun (filler : IsFiller spaced run) : IsRun run := by
  induction filler with
  | nil => exact isRun_nil
  | blank blank _ ih => exact (isRun_blank blank).append ih
  | spacer _ ih =>
      have entity : IsRun Piece.spacer.write := by decide
      exact entity.append ih

theorem isFiller_blanks : IsFiller false run ↔ ∀ c ∈ run, Text.isBlank c = true := by
  constructor
  · intro filler
    generalize same : false = spaced at filler
    induction filler with
    | nil => exact fun _ member => absurd member List.not_mem_nil
    | blank blank _ ih => exact List.forall_mem_cons.mpr ⟨blank, ih same⟩
    | spacer => cases same
  · intro blanks
    induction run with
    | nil => exact .nil
    | cons c rest ih =>
        obtain ⟨blank, others⟩ := List.forall_mem_cons.mp blanks
        exact .blank blank (ih others)

theorem isFiller_leftOver (spaced : Bool) : IsFiller spaced (leftOver spaced) := by
  cases spaced with
  | false => exact .nil
  | true => exact .spacer .nil

theorem spacer_not_prefix_blank (blank : Text.isBlank c = true) :
    ¬ Piece.spacer.write <+: c :: run := by
  rintro ⟨rest, same⟩
  obtain ⟨rfl, _⟩ := List.cons.inj same
  exact absurd blank (by decide)

theorem IsFiller.skipFiller (filler : IsFiller spaced run) : skipFiller run = (spaced, []) := by
  induction filler with
  | nil => rfl
  | blank blank _ ih => rw [skipFiller_cons (spacer_not_prefix_blank blank), if_pos blank, ih]
  | spacer _ ih => rw [skipFiller_spacer, ih]

theorem IsFiller.eq_of_isFiller {spaced' : Bool} (filler : IsFiller spaced run)
    (filler' : IsFiller spaced' run) : spaced = spaced' := by
  have same := filler.skipFiller.symm.trans filler'.skipFiller
  exact congrArg Prod.fst same

/-- What is skipped at the beginning of a text is filler. -/
theorem exists_filler (text : List Char) :
    ∃ run, IsFiller (skipFiller text).1 run ∧ text = run ++ (skipFiller text).2 := by
  fun_induction skipFiller text with
  | case1 => exact ⟨[], .nil, rfl⟩
  | case2 rest ih =>
      obtain ⟨run, filler, same⟩ := ih
      refine ⟨Piece.spacer.write ++ run, .spacer filler, ?_⟩
      rw [List.append_assoc, ← same]
      rfl
  | case3 c rest other blank ih =>
      obtain ⟨run, filler, same⟩ := ih
      exact ⟨c :: run, .blank blank filler, congrArg (c :: ·) same⟩
  | case4 c rest other shown => exact ⟨[], .nil, rfl⟩

theorem beginsTag_eq_true (begins : beginsTag text = true) : ∃ rest, text = '<' :: rest := by
  unfold beginsTag at begins
  split at begins
  · exact ⟨_, rfl⟩
  · cases begins

end

/-- The change closes the gaps that lead from one tag to the next, and changes nothing else. -/
structure ClosesGaps (lead : Text.Pattern Char) (change : List Char → List Char) : Prop where
  run : ∀ {run left}, lead run left → IsRun run
  left : ∀ {run left}, lead run left → IsRun left
  closed : ∀ {run left}, lead run left → ∀ rest, change (run ++ '<' :: rest) = left ++ '<' :: rest
  other : ∀ {behind}, (∀ run left, lead run left → ¬ run ++ ['<'] <+: behind) →
    change behind = behind

theorem exists_tag_of_prefix {run text : List Char} (begins : run ++ ['<'] <+: text) :
    ∃ rest, text = run ++ '<' :: rest := by
  obtain ⟨rest, same⟩ := begins
  exact ⟨rest, by rw [← same, List.append_assoc, List.singleton_append]⟩

theorem prefix_of_tag (run rest : List Char) : run ++ ['<'] <+: run ++ '<' :: rest :=
  ⟨rest, by rw [List.append_assoc, List.singleton_append]⟩

theorem changeGaps_cons {c : Char} (different : c ≠ '>') (change : List Char → List Char)
    (rest : List Char) : changeGaps change (c :: rest) = c :: changeGaps change rest :=
  if_neg different

/-- What stands in front of the first tag end is not changed. -/
theorem prefix_changeGaps_iff {word : List Char} (inside : '>' ∉ word)
    (change : List Char → List Char) {text : List Char} :
    word <+: changeGaps change text ↔ word <+: text := by
  induction word generalizing text with
  | nil => simp only [List.nil_prefix]
  | cons c word ih =>
      obtain ⟨different, inside⟩ := not_or.mp (mt List.mem_cons.mpr inside)
      cases text with
      | nil => rfl
      | cons d rest =>
          by_cases tagEnd : d = '>'
          · subst tagEnd
            have absent : ∀ behind, ¬ c :: word <+: '>' :: behind := fun behind begins =>
              different (List.cons_prefix_cons.mp begins).1.symm
            exact iff_of_false (absent _) (absent _)
          · rw [changeGaps_cons tagEnd, List.cons_prefix_cons, List.cons_prefix_cons, ih inside]

namespace ClosesGaps

variable {lead : Text.Pattern Char} {change : List Char → List Char}
  (closes : ClosesGaps lead change)
include closes

theorem inside {run left : List Char} (leads : lead run left) : '>' ∉ run ++ ['<'] :=
  List.not_mem_append (closes.run leads).greater (by decide)

/-- A change of other gaps may be made before or afterwards. -/
theorem changeGaps_change (further : List Char → List Char) (text : List Char) :
    changeGaps further (change text) = change (changeGaps further text) := by
  by_cases gap : ∃ run left, lead run left ∧ run ++ ['<'] <+: text
  · obtain ⟨run, left, leads, begins⟩ := gap
    obtain ⟨rest, rfl⟩ := exists_tag_of_prefix begins
    rw [closes.closed leads, changeGaps_append further (closes.left leads).greater,
      changeGaps_append further (closes.run leads).greater, changeGaps_cons (by decide),
      closes.closed leads]
  · have nothing : ∀ run left, lead run left → ¬ run ++ ['<'] <+: text :=
      fun run left leads begins => gap ⟨run, left, leads, begins⟩
    have nothing' : ∀ run left, lead run left → ¬ run ++ ['<'] <+: changeGaps further text :=
      fun run left leads begins => nothing run left leads
        ((prefix_changeGaps_iff (closes.inside leads) further).mp begins)
    rw [closes.other nothing, closes.other nothing']

theorem changeGaps_changeGaps (further : List Char → List Char) (text : List Char) :
    changeGaps further (changeGaps change text) =
      changeGaps (fun behind => further (change behind)) text := by
  induction text with
  | nil => rfl
  | cons c rest ih =>
      by_cases tagEnd : c = '>'
      · subst tagEnd
        have step : ∀ (change : List Char → List Char) rest,
            changeGaps change ('>' :: rest) = '>' :: change (changeGaps change rest) :=
          fun _ _ => rfl
        rw [step, step, step, closes.changeGaps_change, ih]
      · rw [changeGaps_cons tagEnd, changeGaps_cons tagEnd, changeGaps_cons tagEnd, ih]

end ClosesGaps

/-- Blanks between two tags disappear. -/
def blankLead : Text.Pattern Char :=
  fun run left => (run ≠ [] ∧ ∀ c ∈ run, Text.isBlank c = true) ∧ left = []

/-- Of filler with non-breaking spaces, one such space remains. -/
def spacerLead : Text.Pattern Char :=
  fun run left => IsFiller true run ∧ left = Piece.spacer.write

/-- Filler disappears, up to one non-breaking space if it holds any. -/
def fillerLead : Text.Pattern Char :=
  fun run left => run ≠ [] ∧ ∃ spaced, IsFiller spaced run ∧ left = leftOver spaced

theorem isRun_blanks {run : List Char} (blanks : ∀ c ∈ run, Text.isBlank c = true) : IsRun run :=
  (isFiller_blanks.mpr blanks).isRun

theorem closesGaps_dropBlankGap : ClosesGaps blankLead dropBlankGap where
  run leads := isRun_blanks leads.1.2
  left leads := leads.2 ▸ isRun_nil
  closed := by
    rintro run _ ⟨⟨some, blanks⟩, rfl⟩ rest
    rw [dropBlankGap_closes.next run rest (isRun_blanks blanks), dropBlankRun,
      if_pos (List.all_eq_true.mpr blanks)]
  other := by
    intro behind nothing
    have split : behind.takeWhile Text.isBlank ++ behind.dropWhile Text.isBlank = behind :=
      List.takeWhile_append_dropWhile
    unfold dropBlankGap
    dsimp only
    split
    · rename_i begins
      obtain ⟨rest, shown⟩ := beginsTag_eq_true begins
      by_cases none : behind.takeWhile Text.isBlank = []
      · rwa [none, List.nil_append] at split
      · rw [shown] at split
        have leads : blankLead (behind.takeWhile Text.isBlank) [] :=
          ⟨⟨none, fun _ member => List.mem_takeWhile_imp member⟩, rfl⟩
        exact absurd ⟨rest, by rw [List.append_assoc]; exact split⟩ (nothing _ _ leads)
    · rfl

theorem closesGaps_mergeSpacerGap : ClosesGaps spacerLead mergeSpacerGap where
  run leads := leads.1.isRun
  left leads := leads.2 ▸ (by decide)
  closed := by
    rintro run _ ⟨filler, rfl⟩ rest
    rw [mergeSpacerGap_closes.next run rest filler.isRun, mergeSpacerRun, if_pos filler.skipFiller]
  other := by
    intro behind nothing
    obtain ⟨run, filler, split⟩ := exists_filler behind
    unfold mergeSpacerGap
    split
    · rename_i next skipped
      rw [skipped] at filler split
      split
      · rename_i begins
        obtain ⟨rest, rfl⟩ := beginsTag_eq_true begins
        exact absurd (split ▸ prefix_of_tag run rest) (nothing _ _ ⟨filler, rfl⟩)
      · rfl
    · rfl

/-- What follows the end of a tag as a finished document has it. -/
def closeGap (behind : List Char) : List Char :=
  mergeSpacerGap (dropBlankGap behind)

theorem closeGap_filler {spaced : Bool} {run : List Char} (filler : IsFiller spaced run)
    (rest : List Char) : closeGap (run ++ '<' :: rest) = leftOver spaced ++ '<' :: rest := by
  unfold closeGap
  rw [dropBlankGap_closes.next run rest filler.isRun,
    mergeSpacerGap_closes.next _ rest (isRun_dropBlankRun filler.isRun)]
  congr 1
  unfold dropBlankRun
  cases spaced with
  | false =>
      rw [if_pos (List.all_eq_true.mpr (isFiller_blanks.mp filler))]
      rfl
  | true =>
      have spacer : ¬ run.all Text.isBlank = true := fun blanks => by
        have same := filler.eq_of_isFiller (isFiller_blanks.mpr (List.all_eq_true.mp blanks))
        exact Bool.noConfusion same
      rw [if_neg spacer, mergeSpacerRun, if_pos filler.skipFiller]
      rfl

theorem closesGaps_closeGap : ClosesGaps fillerLead closeGap where
  run leads := leads.2.choose_spec.1.isRun
  left := by
    rintro run _ ⟨_, spaced, _, rfl⟩
    exact (isFiller_leftOver spaced).isRun
  closed := by
    rintro run _ ⟨_, spaced, filler, rfl⟩ rest
    exact closeGap_filler filler rest
  other := by
    intro behind nothing
    have blanks : ∀ run left, blankLead run left → ¬ run ++ ['<'] <+: behind := fun run _ leads =>
      nothing run _ ⟨leads.1.1, false, isFiller_blanks.mpr leads.1.2, rfl⟩
    have spacers : ∀ run left, spacerLead run left → ¬ run ++ ['<'] <+: behind := by
      rintro run _ ⟨filler, rfl⟩
      refine nothing run _ ⟨?_, true, filler, rfl⟩
      rintro rfl
      exact Bool.noConfusion (filler.eq_of_isFiller .nil)
    rw [closeGap, closesGaps_dropBlankGap.other blanks, closesGaps_mergeSpacerGap.other spacers]

theorem closeGaps_eq_changeGaps (text : List Char) :
    closeGaps text = changeGaps closeGap text :=
  closesGaps_dropBlankGap.changeGaps_changeGaps mergeSpacerGap text

end GraphqlReference.Html
