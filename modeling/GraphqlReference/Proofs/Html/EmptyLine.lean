import Mathlib.Data.List.Basic
import GraphqlReference.Proofs.Html.Gap

namespace GraphqlReference.Html

def lineOpening : List Char :=
  (Tag.opening .division [.style "line"]).write

def lineClosing : List Char :=
  (Tag.closing .division).write

namespace Cut

/-- The cut with a non-breaking space in each empty line, behind a text that may be the tag that
opens a line. -/
def fillEmpty (previous : List Char) : Cut → Cut
  | last run => last run
  | next run tag behind =>
    next
      (if run = [] ∧ previous = lineOpening ∧ tag.write = lineClosing then Piece.spacer.write
        else run)
      tag (behind.fillEmpty tag.write)

theorem isClean_fillEmpty {cut : Cut} (clean : cut.IsClean) (previous : List Char) :
    (cut.fillEmpty previous).IsClean := by
  induction cut generalizing previous with
  | last run => exact clean
  | next run tag behind ih =>
      obtain ⟨runClean, plain, behindClean⟩ := clean
      refine ⟨?_, plain, ih behindClean tag.write⟩
      split
      · decide
      · exact runClean

end Cut

theorem fillFirstLine_emptyLine {text behind : List Char} (begins : lineClosing ++ behind = text) :
    fillFirstLine (lineOpening ++ text) = lineOpening ++ (Piece.spacer.write ++ text) := by
  subst begins
  rfl

theorem fillFirstLine_other {text : List Char}
    (other : ¬ Fragment.emptyLine.write <+: text) : fillFirstLine text = text := by
  unfold fillFirstLine
  split
  · rename_i behind found
    exact absurd ⟨behind, List.isPrefixOf?_eq_some_iff_append_eq.mp found⟩ other
  · rfl

theorem fillEmptyLines_append {run : List Char} (inside : '<' ∉ run) (rest : List Char) :
    fillEmptyLines (run ++ rest) = run ++ fillEmptyLines rest := by
  induction run with
  | nil => rfl
  | cons c run ih =>
      obtain ⟨different, inside⟩ := not_or.mp (mt List.mem_cons.mpr inside)
      have step :
          fillEmptyLines (c :: (run ++ rest)) = fillFirstLine (c :: fillEmptyLines (run ++ rest)) :=
        rfl
      have other : ¬ Fragment.emptyLine.write <+: c :: fillEmptyLines (run ++ rest) :=
        fun ⟨_, same⟩ => different (List.cons.inj same).1
      rw [List.cons_append, step, fillFirstLine_other other, ih inside, List.cons_append]

theorem fillEmptyLines_tag {tag : Tag} (plain : tag.isPlain = true) (rest : List Char) :
    fillEmptyLines (tag.write ++ rest) = fillFirstLine (tag.write ++ fillEmptyLines rest) := by
  have inside : '<' ∉ tag.content ++ ['>'] := by
    simpa using (Tag.isRun_content plain).less
  have step : fillEmptyLines ('<' :: ((tag.content ++ ['>']) ++ rest)) = fillFirstLine
      ('<' :: fillEmptyLines ((tag.content ++ ['>']) ++ rest)) := rfl
  rw [fillEmptyLines_append inside] at step
  exact step

theorem write_append_inj {tag tag' : Tag} {rest rest' : List Char} (plain : tag.isPlain = true)
    (plain' : tag'.isPlain = true) (same : tag.write ++ rest = tag'.write ++ rest') :
    tag.write = tag'.write ∧ rest = rest' := by
  have split : ∀ (tag : Tag) rest, tag.write ++ rest = ('<' :: tag.content) ++ '>' :: rest := by
    simp [Tag.write]
  have outside : ∀ {tag : Tag}, tag.isPlain = true → '>' ∉ '<' :: tag.content := fun plain => by
    simpa using (Tag.isRun_content plain).greater
  rw [split, split] at same
  obtain ⟨contents, rests⟩ :=
    Text.append_cons_inj_of_not_mem (outside plain) (outside plain') same
  exact ⟨congrArg (· ++ ['>']) contents, rests⟩

theorem Cut.lineClosing_begins {cut : Cut} (clean : cut.IsClean)
    (begins : lineClosing <+: (cut.fillEmpty []).write) :
    ∃ tag behind, cut = .next [] tag behind ∧ tag.write = lineClosing := by
  obtain ⟨rest, same⟩ := begins
  cases cut with
  | last run =>
      have shown : '<' ∈ run := by
        rw [Cut.fillEmpty, Cut.write] at same
        exact same ▸ List.mem_cons_self
      exact absurd shown clean.less
  | next run tag behind =>
      obtain ⟨runClean, plain, _⟩ := clean
      cases run with
      | nil =>
          refine ⟨tag, behind, rfl, ?_⟩
          have unfilled : ¬ ([] = lineOpening) := by decide
          simp only [Cut.fillEmpty, Cut.write, unfilled, false_and, and_false, if_false,
            List.nil_append] at same
          have division : (Tag.closing .division).isPlain = true := rfl
          exact (write_append_inj division plain same).1.symm
      | cons c run =>
          have different : c ≠ '<' := fun here => runClean.less (here ▸ List.mem_cons_self)
          simp only [Cut.fillEmpty, Cut.write, List.cons_ne_nil, false_and, if_false] at same
          exact absurd (List.cons.inj same).1.symm different

theorem Cut.fillFirstLine_tag {tag : Tag} {behind : Cut} (plain : tag.isPlain = true)
    (clean : behind.IsClean) :
    fillFirstLine (tag.write ++ (behind.fillEmpty []).write) =
      tag.write ++ (behind.fillEmpty tag.write).write := by
  have unfilled : ¬ ([] = lineOpening) := by decide
  by_cases empty : tag.write = lineOpening ∧ lineClosing <+: (behind.fillEmpty []).write
  · obtain ⟨opens, begins⟩ := empty
    obtain ⟨closing, rest, rfl, closes⟩ := Cut.lineClosing_begins clean begins
    obtain ⟨after, same⟩ := begins
    rw [opens, fillFirstLine_emptyLine same]
    simp only [Cut.fillEmpty, Cut.write, unfilled, closes, and_true, and_false, if_true, if_false,
      List.nil_append]
  · have other : ¬ Fragment.emptyLine.write <+: tag.write ++ (behind.fillEmpty []).write := by
      rintro ⟨after, same⟩
      have split :
            lineOpening ++ (lineClosing ++ after) = tag.write ++ (behind.fillEmpty []).write :=
        same
      have line : (Tag.opening .division [.style "line"]).isPlain = true := by decide
      obtain ⟨opens, begins⟩ := write_append_inj line plain split
      exact empty ⟨opens.symm, after, begins⟩
    rw [fillFirstLine_other other]
    congr 1
    cases behind with
    | last run => rfl
    | next run closing rest =>
        have unchanged : ¬ (run = [] ∧ tag.write = lineOpening ∧ closing.write = lineClosing) := by
          rintro ⟨rfl, opens, closes⟩
          refine empty ⟨opens, ?_⟩
          simp only [Cut.fillEmpty, Cut.write, unfilled, closes, false_and, and_false, if_false,
            List.nil_append]
          exact List.prefix_append _ _
        simp only [Cut.fillEmpty, unfilled, unchanged, false_and, and_false, if_false]

theorem fillEmptyLines_write {cut : Cut} (clean : cut.IsClean) :
    fillEmptyLines cut.write = (cut.fillEmpty []).write := by
  induction cut with
  | last run =>
      have unchanged := fillEmptyLines_append clean.less []
      rw [List.append_nil] at unchanged
      exact unchanged.trans (List.append_nil run)
  | next run tag behind ih =>
      obtain ⟨runClean, plain, behindClean⟩ := clean
      have unfilled : ¬ ([] = lineOpening) := by decide
      simp only [Cut.write, Cut.fillEmpty, unfilled, false_and, and_false, if_false]
      rw [fillEmptyLines_append runClean.less, fillEmptyLines_tag plain, ih behindClean,
        Cut.fillFirstLine_tag plain behindClean]

/-- What a finished document makes of the runs of a text. -/
def Cut.settle (behindTag : Bool) (previous : List Char) (cut : Cut) : Cut :=
  (cut.mapGaps closeRun behindTag).fillEmpty previous

theorem normalize_write {cut : Cut} (clean : cut.IsClean) :
    normalize cut.write = (cut.settle false []).write := by
  rw [normalize, closeGaps_write clean,
    fillEmptyLines_write (Cut.isClean_mapGaps (fun _ => isRun_closeRun) clean), Cut.settle]

theorem Fragment.normalize_write {fragment : Fragment}
    (plain : ∀ piece ∈ fragment, piece.isPlain = true) :
    normalize fragment.write = ((cutFrom [] fragment).settle false []).write := by
  rw [← Html.normalize_write (isClean_cutFrom isRun_nil plain), write_cutFrom, List.nil_append]

end GraphqlReference.Html
