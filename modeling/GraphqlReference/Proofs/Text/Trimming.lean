import Mathlib.Data.List.DropRight
import GraphqlReference.Proofs.Text.Lines
import GraphqlReference.Proofs.Text.Position

namespace GraphqlReference.Text

theorem trimEnd_concat (text : List Char) (c : Char) :
    trimEnd (text ++ [c]) = if isBlank c then trimEnd text else text ++ [c] := by
  induction text with
  | nil => rfl
  | cons first rest ih =>
      rw [List.cons_append, trimEnd, ih]
      cases blank : isBlank c with
      | true => rfl
      | false => cases rest <;> rfl

theorem trimEnd_eq_rdropWhile (text : List Char) : trimEnd text = text.rdropWhile isBlank := by
  induction text using List.reverseRecOn with
  | nil => rfl
  | append_singleton text c ih => rw [trimEnd_concat, List.rdropWhile_concat, ih]

theorem trimEnd_dropFinalReturn (piece : List Char) :
    trimEnd (dropFinalReturn piece) = trimEnd piece := by
  unfold dropFinalReturn
  split
  · rename_i ends
    obtain ⟨start, rfl⟩ := List.getLast?_eq_some_iff.mp ends
    have blank : isBlank '\r' = true := by decide
    rw [List.dropLast_concat, trimEnd_concat, if_pos blank]
  · rfl

theorem lineFeedPieces_eq_splitOn (text : List Char) :
    lineFeedPieces text = text.splitOn '\n' := by
  induction text with
  | nil => rfl
  | cons c rest ih =>
      rw [lineFeedPieces, List.splitOn_cons_eq_if_modifyHead, ih]
      obtain ⟨piece, more, pieces⟩ := List.exists_cons_of_ne_nil (List.splitOn_ne_nil '\n' rest)
      simp [pieces]

/-- A text is a piece without line feeds, or such a piece in front of a line feed and a text. -/
@[elab_as_elim]
theorem pieceInduction {motive : List Char → Prop} (last : ∀ piece, '\n' ∉ piece → motive piece)
    (next : ∀ piece rest, '\n' ∉ piece → motive rest → motive (piece ++ '\n' :: rest))
    (text : List Char) : motive text := by
  suffices behind : ∀ piece, '\n' ∉ piece → motive (piece ++ text) from behind [] List.not_mem_nil
  induction text with
  | nil =>
      intro piece plain
      rw [List.append_nil]
      exact last piece plain
  | cons c rest ih =>
      intro piece plain
      by_cases ends : c = '\n'
      · subst ends
        exact next piece rest plain (ih [] List.not_mem_nil)
      · have further : '\n' ∉ piece ++ [c] := by simp [plain, Ne.symm ends]
        have longer := ih (piece ++ [c]) further
        rwa [List.append_assoc] at longer

def trimmedPieces (text : List Char) : List (List Char) :=
  (text.splitOn '\n').map (List.rdropWhile isBlank)

theorem trimmedPieces_last {piece : List Char} (plain : '\n' ∉ piece) :
    trimmedPieces piece = [piece.rdropWhile isBlank] := by
  rw [trimmedPieces, List.splitOn_eq_singleton plain, List.map_singleton]

theorem trimmedPieces_next {piece : List Char} (plain : '\n' ∉ piece) (rest : List Char) :
    trimmedPieces (piece ++ '\n' :: rest) = piece.rdropWhile isBlank :: trimmedPieces rest := by
  rw [trimmedPieces, List.splitOn_append_cons_self_of_not_mem plain, List.map_cons, trimmedPieces]

theorem trimmedPieces_eq_map (text : List Char) :
    trimmedPieces text =
      (lineFeedPieces text).map fun piece => trimEnd (dropFinalReturn piece) := by
  rw [lineFeedPieces_eq_splitOn]
  exact List.map_congr_left fun piece _ => by
    rw [trimEnd_dropFinalReturn, trimEnd_eq_rdropWhile]

theorem length_trimmedPieces (text : List Char) :
    (trimmedPieces text).length = text.count '\n' + 1 := by
  rw [trimmedPieces_eq_map, List.length_map, length_lineFeedPieces]

theorem not_mem_trim {piece : List Char} {c : Char} (absent : c ∉ piece) :
    c ∉ piece.rdropWhile isBlank :=
  fun member => absent ((piece.rdropWhile_prefix isBlank).subset member)

theorem lineFeed_not_mem_trimmedPieces (text : List Char) :
    ∀ piece ∈ trimmedPieces text, '\n' ∉ piece := by
  induction text using pieceInduction with
  | last piece plain =>
      rw [trimmedPieces_last plain]
      exact List.forall_mem_singleton.mpr (not_mem_trim plain)
  | next piece rest plain ih =>
      rw [trimmedPieces_next plain]
      exact List.forall_mem_cons.mpr ⟨not_mem_trim plain, ih⟩

/-- No blank ends a trimmed piece. -/
theorem exists_behind_blank {piece before after : List Char} {c : Char} (blank : isBlank c = true)
    (trimmed : piece.rdropWhile isBlank = before ++ c :: after) :
    ∃ next more, after = next :: more := by
  cases after with
  | nil =>
      have ends := List.rdropWhile_last_not isBlank piece (by simp [trimmed])
      simp [trimmed, blank] at ends
  | cons next more => exact ⟨next, more, rfl⟩

/-- Where a line feed follows each carriage return, the returns end their pieces, and no trimmed
piece holds any. -/
theorem HasPairedReturns.not_mem_trimmedPieces {text : List Char} (paired : HasPairedReturns text) :
    ∀ piece ∈ trimmedPieces text, '\r' ∉ piece := by
  induction text using pieceInduction with
  | last piece plain =>
      have absent : '\r' ∉ piece := by
        intro member
        obtain ⟨before, after, rfl⟩ := List.append_of_mem member
        obtain ⟨rest, rfl⟩ := paired before after rfl
        simp at plain
      rw [trimmedPieces_last plain]
      exact List.forall_mem_singleton.mpr (not_mem_trim absent)
  | next piece rest plain ih =>
      have behind : HasPairedReturns rest := paired.right.tail
      rw [trimmedPieces_next plain]
      refine List.forall_mem_cons.mpr ⟨fun member => ?_, ih behind⟩
      obtain ⟨before, after, trimmed⟩ := List.append_of_mem member
      obtain ⟨blanks, split⟩ := piece.rdropWhile_prefix isBlank
      rw [trimmed] at split
      obtain ⟨c, after, rfl⟩ := exists_behind_blank (by decide) trimmed
      obtain ⟨more, begins⟩ := paired before (c :: after ++ (blanks ++ '\n' :: rest))
        (by simp [← split])
      obtain rfl : '\n' = c := (List.cons.inj begins).1
      exact plain (by simp [← split])

end GraphqlReference.Text
