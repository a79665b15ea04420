import GraphqlReference.Proofs.Html.EmptyLine
import GraphqlReference.Proofs.Text.Replacing

namespace GraphqlReference.Html

/-- A text begins with an empty line, which is filled, or is left as it is. -/
theorem fillFirstLine_cases (text : List Char) :
    (¬ Fragment.emptyLine.write <+: text ∧ fillFirstLine text = text) ∨
      ∃ rest, text = lineOpening ++ (lineClosing ++ rest) ∧
        fillFirstLine text = lineOpening ++ (Piece.spacer.write ++ (lineClosing ++ rest)) := by
  by_cases begins : Fragment.emptyLine.write <+: text
  · obtain ⟨rest, rfl⟩ := begins
    exact .inr ⟨rest, rfl, fillFirstLine_emptyLine rfl⟩
  · exact .inl ⟨begins, fillFirstLine_other begins⟩

theorem fillEmptyLines_cons (c : Char) (rest : List Char) :
    fillEmptyLines (c :: rest) = fillFirstLine (c :: fillEmptyLines rest) :=
  rfl

theorem head?_fillEmptyLines (text : List Char) : (fillEmptyLines text).head? = text.head? := by
  cases text with
  | nil => rfl
  | cons c rest =>
      rw [fillEmptyLines_cons]
      rcases fillFirstLine_cases (c :: fillEmptyLines rest) with ⟨_, same⟩ | ⟨_, same, filled⟩
      · rw [same]
        rfl
      · rw [filled, (List.cons.inj same).1]
        rfl

/-- What stands in front of the first tag is not changed. -/
theorem fillEmptyLines_eq_append {run rest text : List Char} (inside : '<' ∉ run)
    (same : fillEmptyLines text = run ++ rest) :
    ∃ behind, text = run ++ behind ∧ fillEmptyLines behind = rest := by
  induction run generalizing text with
  | nil => exact ⟨text, rfl, same⟩
  | cons c run ih =>
      obtain ⟨different, inside⟩ := not_or.mp (mt List.mem_cons.mpr inside)
      have head := head?_fillEmptyLines text
      cases text with
      | nil => cases same
      | cons d text =>
          obtain rfl : c = d := by simpa [same] using head
          have alone : '<' ∉ [c] := by simpa using different
          have step : fillEmptyLines (c :: text) = c :: fillEmptyLines text :=
            fillEmptyLines_append alone text
          rw [step] at same
          obtain ⟨behind, rfl, filled⟩ := ih inside (List.cons.inj same).2
          exact ⟨behind, rfl, filled⟩

theorem exists_of_head? {text : List Char} {c : Char} (head : text.head? = some c) :
    ∃ rest, text = c :: rest :=
  ⟨text.tail, (List.cons_head?_tail head).symm⟩

/-- The way to the first tag stays as it is. -/
theorem fillEmptyLines_tag_iff {run text : List Char} (inside : '<' ∉ run) :
    (∃ rest, fillEmptyLines text = run ++ '<' :: rest) ↔ ∃ rest, text = run ++ '<' :: rest := by
  constructor
  · rintro ⟨rest, same⟩
    obtain ⟨behind, rfl, filled⟩ := fillEmptyLines_eq_append inside same
    have head := head?_fillEmptyLines behind
    rw [filled] at head
    obtain ⟨rest, rfl⟩ := exists_of_head? head.symm
    exact ⟨rest, rfl⟩
  · rintro ⟨rest, rfl⟩
    obtain ⟨filled, same⟩ := exists_of_head? (head?_fillEmptyLines ('<' :: rest))
    exact ⟨filled, by rw [fillEmptyLines_append inside, same]⟩

/-- The end of a line stays as it is. -/
theorem lineClosing_of_fillEmptyLines {text : List Char}
    (begins : lineClosing <+: fillEmptyLines text) : lineClosing <+: text := by
  obtain ⟨rest, same⟩ := begins
  have head := head?_fillEmptyLines text
  rw [← same] at head
  obtain ⟨text, rfl⟩ := exists_of_head? head.symm
  have inside : '<' ∉ lineClosing.tail := by decide
  rw [fillEmptyLines_cons] at same
  rcases fillFirstLine_cases ('<' :: fillEmptyLines text) with ⟨_, unchanged⟩ | ⟨_, _, filled⟩
  · rw [unchanged] at same
    obtain ⟨behind, rfl, _⟩ := fillEmptyLines_eq_append inside (List.cons.inj same).2.symm
    exact List.prefix_append _ _
  · rw [filled] at same
    exact absurd (List.cons.inj (List.cons.inj same).2).1 (by decide)

/-- No empty line comes about when the empty lines behind it are filled. -/
theorem emptyLine_of_fillEmptyLines {c : Char} {text : List Char}
    (begins : Fragment.emptyLine.write <+: c :: fillEmptyLines text) :
    Fragment.emptyLine.write <+: c :: text := by
  obtain ⟨rest, same⟩ := begins
  have inside : '<' ∉ lineOpening.tail := by decide
  have split : '<' :: (lineOpening.tail ++ (lineClosing ++ rest)) = c :: fillEmptyLines text := same
  obtain ⟨rfl, opened⟩ := List.cons.inj split
  obtain ⟨behind, rfl, filled⟩ := fillEmptyLines_eq_append inside opened.symm
  obtain ⟨after, rfl⟩ := lineClosing_of_fillEmptyLines (filled ▸ List.prefix_append _ _)
  exact List.prefix_append Fragment.emptyLine.write after

theorem fillEmptyLines_emptyLine (rest : List Char) :
    fillEmptyLines (Fragment.emptyLine.write ++ rest) =
      Fragment.blankLine.write ++ fillEmptyLines rest := by
  have opening : (Tag.opening .division [.style "line"]).isPlain = true := by decide
  have closing : (Tag.closing .division).isPlain = true := rfl
  have other : ¬ Fragment.emptyLine.write <+: lineClosing ++ fillEmptyLines rest := fun ⟨_, same⟩ =>
    absurd (List.cons.inj (List.cons.inj same).2).1 (by decide)
  have closed : fillEmptyLines (lineClosing ++ rest) = lineClosing ++ fillEmptyLines rest :=
    (fillEmptyLines_tag closing rest).trans (fillFirstLine_other other)
  have opened : fillEmptyLines (lineOpening ++ (lineClosing ++ rest)) =
      fillFirstLine (lineOpening ++ fillEmptyLines (lineClosing ++ rest)) :=
    fillEmptyLines_tag opening _
  rw [closed] at opened
  exact opened.trans (fillFirstLine_emptyLine rfl)

/-- An empty line, and what keeps its height. -/
def emptyLines : Text.Pattern Char :=
  fun word other => word = Fragment.emptyLine.write ∧ other = Fragment.blankLine.write

theorem isDefinite_emptyLines : emptyLines.IsDefinite where
  nonempty := by
    rintro _ _ ⟨rfl, _⟩
    decide
  unique := by
    rintro _ _ _ _ _ _ ⟨rfl, rfl⟩ ⟨rfl, rfl⟩ _
    exact ⟨rfl, rfl⟩

/-- Filling the empty lines from the end of a text to its beginning replaces them in the order in
which they stand. -/
theorem replaced_fillEmptyLines (text : List Char) :
    Text.Replaced emptyLines text (fillEmptyLines text) := by
  generalize bound : text.length = length
  induction length using Nat.strongRecOn generalizing text with
  | ind length ih =>
      subst bound
      by_cases begins : Fragment.emptyLine.write <+: text
      · obtain ⟨rest, rfl⟩ := begins
        rw [fillEmptyLines_emptyLine]
        have shorter : rest.length < (Fragment.emptyLine.write ++ rest).length := by
          rw [List.length_append]
          exact Nat.lt_add_of_pos_left (by decide)
        exact .replaced ⟨rfl, rfl⟩ (ih _ shorter rest rfl)
      · cases text with
        | nil => exact .nil
        | cons c rest =>
            have nothing : ∀ word other, emptyLines word other → ¬ word <+: c :: rest := by
              rintro _ _ ⟨rfl, rfl⟩
              exact begins
            rw [fillEmptyLines_cons, fillFirstLine_other (mt emptyLine_of_fillEmptyLines begins)]
            exact .kept nothing (ih rest.length (by simp) rest rfl)

end GraphqlReference.Html
