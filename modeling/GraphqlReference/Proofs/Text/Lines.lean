import GraphqlReference.Text.Lines

namespace GraphqlReference.Text

/-- Not all characters of a text are blank. -/
def isVisible (text : List Char) : Bool :=
  text.any (!isBlank ·)

theorem isVisible_iff {text : List Char} :
    isVisible text = true ↔ ∃ c ∈ text, isBlank c = false := by
  simp [isVisible]

theorem isVisible_of_mem {text : List Char} {c : Char} (member : c ∈ text)
    (shown : isBlank c = false) : isVisible text = true :=
  isVisible_iff.mpr ⟨c, member, shown⟩

theorem isVisible_cons_blank {c : Char} (blank : isBlank c = true) (rest : List Char) :
    isVisible (c :: rest) = isVisible rest := by
  simp [isVisible, blank]

theorem isVisible_trimEnd {text : List Char} (some : trimEnd text ≠ []) :
    isVisible (trimEnd text) = true := by
  induction text with
  | nil => exact absurd rfl some
  | cons c rest ih =>
      unfold trimEnd at some ⊢
      cases kept : trimEnd rest with
      | nil =>
          rw [kept] at some
          cases blank : isBlank c with
          | true => simp [blank] at some
          | false => exact isVisible_of_mem List.mem_cons_self blank
      | cons first others =>
          rw [kept] at ih
          obtain ⟨shown, member, visible⟩ := isVisible_iff.mp (ih (List.cons_ne_nil first others))
          exact isVisible_of_mem (List.mem_cons_of_mem _ member) visible

theorem isBlank_of_isDigit {c : Char} (digit : c.isDigit = true) : isBlank c = false := by
  simp only [Char.isDigit, Bool.and_eq_true, decide_eq_true_eq] at digit
  have low : 48 ≤ c.toNat := digit.1
  have high : c.toNat ≤ 57 := digit.2
  simp only [isBlank, Bool.or_eq_false_iff, Bool.and_eq_false_iff, decide_eq_false_iff_not,
    beq_eq_false_iff_ne]
  omega

section

variable {first : List Char}

theorem lineFeedPieces_plain (plain : '\n' ∉ first) : lineFeedPieces first = [first] := by
  induction first with
  | nil => rfl
  | cons c others ih =>
      rw [List.mem_cons, not_or] at plain
      rw [lineFeedPieces, if_neg (Ne.symm plain.1), ih plain.2]

theorem lineFeedPieces_append (plain : '\n' ∉ first) (rest : List Char) :
    lineFeedPieces (first ++ '\n' :: rest) = first :: lineFeedPieces rest := by
  induction first with
  | nil => rfl
  | cons c others ih =>
      rw [List.mem_cons, not_or] at plain
      rw [List.cons_append, lineFeedPieces, if_neg (Ne.symm plain.1), ih plain.2]

end

/-- A test that does not see how lines end may be made on the pieces between line feeds. -/
theorem any_lines {test : List Char → Bool} (empty : test [] = false)
    (ended : ∀ piece, test (dropFinalReturn piece) = test piece) (text : List Char) :
    (lines text).any test = (lineFeedPieces text).any test := by
  unfold lines
  generalize lineFeedPieces text = pieces
  rcases List.eq_nil_or_concat pieces with rfl | ⟨earlier, last, rfl⟩
  · rfl
  · cases last <;> simp [Function.comp_def, ended, empty]

theorem length_lineFeedPieces (text : List Char) :
    (lineFeedPieces text).length = text.count '\n' + 1 := by
  induction text with
  | nil => rfl
  | cons c rest ih =>
      rw [lineFeedPieces, List.count_cons]
      split
      · rename_i ends
        simp [ih, ends]
      · rename_i stays
        split
        · rename_i none
          simp [none] at ih
        · rename_i piece more pieces
          rw [pieces, List.length_cons] at ih
          simp [ih, stays]

end GraphqlReference.Text
