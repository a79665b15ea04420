import Mathlib.Data.List.TakeWhile
import GraphqlReference.Proofs.Html.Cut

namespace GraphqlReference.Html

namespace Cut

/-- The cut with all runs changed that have a tag on both sides. -/
def mapGaps (close : List Char → List Char) (behindTag : Bool) : Cut → Cut
  | last run => last run
  | next run tag behind =>
    next (if behindTag then close run else run) tag (behind.mapGaps close true)

theorem mapGaps_mapGaps (close close' : List Char → List Char) (behindTag : Bool) (cut : Cut) :
    (cut.mapGaps close behindTag).mapGaps close' behindTag =
      cut.mapGaps (fun run => close' (close run)) behindTag := by
  induction cut generalizing behindTag with
  | last run => rfl
  | next run tag behind ih => cases behindTag <;> simp [mapGaps, ih]

theorem isClean_mapGaps {close : List Char → List Char} {behindTag : Bool} {cut : Cut}
    (kept : ∀ run, IsRun run → IsRun (close run)) (clean : cut.IsClean) :
    (cut.mapGaps close behindTag).IsClean := by
  induction cut generalizing behindTag with
  | last run => exact clean
  | next run tag behind ih =>
      obtain ⟨runClean, plain, behindClean⟩ := clean
      refine ⟨?_, plain, ih behindClean⟩
      cases behindTag
      · exact runClean
      · exact kept run runClean

end Cut

/-- The text with a change to what follows each tag, from the end of the text to its beginning. -/
def changeGaps (change : List Char → List Char) (text : List Char) : List Char :=
  text.foldr (fun c behind => if c = '>' then c :: change behind else c :: behind) []

/-- A change of what follows a tag that is a change of the run up to the next tag. -/
structure ClosesRun (change close : List Char → List Char) : Prop where
  last : ∀ run, IsRun run → change run = run
  next : ∀ run rest, IsRun run → change (run ++ '<' :: rest) = close run ++ '<' :: rest

theorem changeGaps_append {run : List Char} (change : List Char → List Char) (inside : '>' ∉ run)
    (rest : List Char) : changeGaps change (run ++ rest) = run ++ changeGaps change rest := by
  induction run with
  | nil => rfl
  | cons c run ih =>
      obtain ⟨different, inside⟩ := not_or.mp (mt List.mem_cons.mpr inside)
      have step : changeGaps change (c :: (run ++ rest)) = c :: changeGaps change (run ++ rest) :=
        if_neg (Ne.symm different)
      rw [List.cons_append, step, ih inside, List.cons_append]

theorem changeGaps_tag {tag : Tag} (plain : tag.isPlain = true) (change : List Char → List Char)
    (rest : List Char) :
    changeGaps change (tag.write ++ rest) = tag.write ++ change (changeGaps change rest) := by
  have inside : '>' ∉ '<' :: tag.content := by
    simpa using (Tag.isRun_content plain).greater
  have split : ∀ rest, tag.write ++ rest = ('<' :: tag.content) ++ '>' :: rest := by
    simp [Tag.write]
  rw [split, changeGaps_append change inside, split]
  rfl

theorem changeGaps_write {change close : List Char → List Char} (closes : ClosesRun change close)
    {cut : Cut} (clean : cut.IsClean) :
    changeGaps change cut.write = (cut.mapGaps close false).write ∧
      change (changeGaps change cut.write) = (cut.mapGaps close true).write := by
  induction cut with
  | last run =>
      have unchanged : changeGaps change run = run := by
        simpa [changeGaps] using changeGaps_append change clean.greater []
      simp only [Cut.write, Cut.mapGaps, unchanged, closes.last run clean, and_self]
  | next run tag behind ih =>
      obtain ⟨runClean, plain, behindClean⟩ := clean
      have written : changeGaps change (Cut.next run tag behind).write =
          run ++ (tag.write ++ (behind.mapGaps close true).write) := by
        rw [Cut.write, changeGaps_append change runClean.greater, changeGaps_tag plain,
          (ih behindClean).2]
      refine ⟨written, ?_⟩
      have changed :=
        closes.next run (tag.content ++ '>' :: (behind.mapGaps close true).write) runClean
      rw [written]
      simpa [Cut.mapGaps, Cut.write, Tag.write] using changed

theorem beginsTag_append {run : List Char} (clean : IsRun run) (shown : run ≠ [])
    (rest : List Char) : beginsTag (run ++ rest) = false := by
  cases run with
  | nil => exact absurd rfl shown
  | cons c run =>
      have different : c ≠ '<' := fun here => clean.less (here ▸ List.mem_cons_self)
      rw [List.cons_append]
      unfold beginsTag
      split
      · rename_i same
        exact absurd (List.cons.inj same).1 different
      · rfl

theorem beginsTag_of_isRun {run : List Char} (clean : IsRun run) : beginsTag run = false := by
  cases run with
  | nil => rfl
  | cons c rest => simpa using beginsTag_append clean (List.cons_ne_nil c rest) []

theorem IsRun.sublist {run part : List Char} (clean : IsRun run) (inside : part.Sublist run) :
    IsRun part where
  less member := clean.less (inside.subset member)
  greater member := clean.greater (inside.subset member)

def dropBlankRun (run : List Char) : List Char :=
  if run.all Text.isBlank then [] else run

theorem dropBlankGap_closes : ClosesRun dropBlankGap dropBlankRun where
  last run clean := by
    have unchanged := beginsTag_of_isRun (clean.sublist (List.dropWhile_sublist Text.isBlank))
    simp only [dropBlankGap, unchanged, Bool.false_eq_true, if_false]
  next run rest clean := by
    have tagShows : ('<' :: rest).dropWhile Text.isBlank = '<' :: rest :=
      List.dropWhile_cons_of_neg (by decide)
    have dropped : (run ++ '<' :: rest).dropWhile Text.isBlank = _ := List.dropWhile_append
    by_cases blank : run.all Text.isBlank = true
    · have none : run.dropWhile Text.isBlank = [] :=
        List.dropWhile_eq_nil_iff.mpr (List.all_eq_true.mp blank)
      simp only [none, List.isEmpty_nil, if_true, tagShows] at dropped
      simp only [dropBlankGap, dropped, dropBlankRun, blank, beginsTag, if_true, List.nil_append]
    · have some : run.dropWhile Text.isBlank ≠ [] := fun none =>
        blank (List.all_eq_true.mpr (List.dropWhile_eq_nil_iff.mp none))
      rw [if_neg (by simpa using some)] at dropped
      have unchanged := beginsTag_append
        (clean.sublist (List.dropWhile_sublist Text.isBlank)) some ('<' :: rest)
      simp only [dropBlankGap, dropped, unchanged, dropBlankRun, blank, Bool.false_eq_true,
        if_false]

def mergeSpacerRun (run : List Char) : List Char :=
  if skipFiller run = (true, []) then Piece.spacer.write else run

theorem skipFiller_spacer (rest : List Char) :
    skipFiller (Piece.spacer.write ++ rest) = (true, (skipFiller rest).2) :=
  rfl

theorem skipFiller_cons {c : Char} {rest : List Char} (other : ¬ Piece.spacer.write <+: c :: rest) :
    skipFiller (c :: rest) = if Text.isBlank c then skipFiller rest else (false, c :: rest) := by
  conv => lhs; unfold skipFiller
  split
  · contradiction
  · rename_i behind same
    exact absurd ⟨behind, same.symm⟩ other
  · rename_i same
    cases same
    rfl

theorem spacer_not_prefix_append {run : List Char} (other : ¬ Piece.spacer.write <+: run)
    (rest : List Char) : ¬ Piece.spacer.write <+: run ++ '<' :: rest := by
  rintro ⟨behind, same⟩
  have outside : '<' ∉ Piece.spacer.write := by decide
  have placed : run ++ '<' :: rest = [] ++ (Piece.spacer.write ++ behind) := same.symm
  rcases Text.word_beside outside placed with ⟨inner, inside, _⟩ | ⟨inner, before, _⟩
  · exact other ⟨inner, inside.symm⟩
  · simp at before

theorem skipFiller_append (run rest : List Char) :
    skipFiller (run ++ '<' :: rest) =
      ((skipFiller run).1, (skipFiller run).2 ++ '<' :: rest) := by
  fun_induction skipFiller run with
  | case1 =>
      have other := @spacer_not_prefix_append [] (by decide) rest
      rw [List.nil_append, skipFiller_cons other, if_neg (by decide)]
  | case2 run ih =>
      have split := skipFiller_spacer (run ++ '<' :: rest)
      rw [ih] at split
      exact split
  | case3 c run other blank ih =>
      have other : ¬ Piece.spacer.write <+: c :: run := fun ⟨behind, same⟩ =>
        other behind (List.cons.inj same).1.symm (List.cons.inj same).2.symm
      have step := skipFiller_cons (spacer_not_prefix_append other rest)
      rw [if_pos blank] at step
      exact step.trans ih
  | case4 c run other blank =>
      have other : ¬ Piece.spacer.write <+: c :: run := fun ⟨behind, same⟩ =>
        other behind (List.cons.inj same).1.symm (List.cons.inj same).2.symm
      have step := skipFiller_cons (spacer_not_prefix_append other rest)
      rw [if_neg blank] at step
      exact step

theorem skipFiller_sublist (run : List Char) : (skipFiller run).2.Sublist run := by
  fun_induction skipFiller run with
  | case1 => exact .refl _
  | case2 run ih => exact ih.trans (List.sublist_append_right Piece.spacer.write run)
  | case3 c run other blank ih => exact ih.cons c
  | case4 c run other blank => exact .refl _

theorem mergeSpacerGap_closes : ClosesRun mergeSpacerGap mergeSpacerRun where
  last run clean := by
    have unchanged := beginsTag_of_isRun (clean.sublist (skipFiller_sublist run))
    unfold mergeSpacerGap
    split
    · rename_i next same
      rw [same] at unchanged
      rw [unchanged]
      rfl
    · rfl
  next run rest clean := by
    have skipped := skipFiller_append run rest
    have inside := clean.sublist (skipFiller_sublist run)
    unfold mergeSpacerGap mergeSpacerRun
    rw [skipped]
    cases filler : skipFiller run with
    | mk spaced left =>
        rw [filler] at inside
        cases spaced with
        | false => rfl
        | true =>
            cases left with
            | nil => rfl
            | cons c left =>
                have unchanged := beginsTag_append inside (List.cons_ne_nil c left) ('<' :: rest)
                simp only [unchanged, Bool.false_eq_true, if_false, Prod.mk.injEq, List.cons_ne_nil,
                  and_false]

/-- A run between two tags as a finished document has it. -/
def closeRun (run : List Char) : List Char :=
  mergeSpacerRun (dropBlankRun run)

theorem isRun_dropBlankRun {run : List Char} (clean : IsRun run) : IsRun (dropBlankRun run) := by
  unfold dropBlankRun
  split
  · exact isRun_nil
  · exact clean

theorem isRun_closeRun {run : List Char} (clean : IsRun run) : IsRun (closeRun run) := by
  unfold closeRun mergeSpacerRun
  split
  · decide
  · exact isRun_dropBlankRun clean

theorem closeGaps_write {cut : Cut} (clean : cut.IsClean) :
    closeGaps cut.write = (cut.mapGaps closeRun false).write := by
  have dropped : dropBlankGaps cut.write = (cut.mapGaps dropBlankRun false).write :=
    (changeGaps_write dropBlankGap_closes clean).1
  have cleanAfter : (cut.mapGaps dropBlankRun false).IsClean :=
    Cut.isClean_mapGaps (fun _ => isRun_dropBlankRun) clean
  have merged : mergeSpacerGaps (cut.mapGaps dropBlankRun false).write = _ :=
    (changeGaps_write mergeSpacerGap_closes cleanAfter).1
  rw [closeGaps, dropped, merged, Cut.mapGaps_mapGaps]
  rfl

end GraphqlReference.Html
