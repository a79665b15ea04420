import Mathlib.Data.List.TakeWhile
import GraphqlReference.Proofs.Text.Lines
import GraphqlReference.Proofs.Text.Occurrence
import GraphqlReference.Proofs.Text.Words
import GraphqlReference.Sdl.Document

namespace GraphqlReference.Sdl

open Text

/-- Whether a comment is open behind a text. It ends at a line feed only. -/
def commentedFrom (commented : Bool) : List Char → Bool
  | [] => commented
  | c :: rest => commentedFrom (c != '\n' && (commented || c == '#')) rest

section

variable {commented : Bool} {text : List Char}

theorem commentedFrom_append (first second : List Char) :
    commentedFrom commented (first ++ second) =
      commentedFrom (commentedFrom commented first) second := by
  induction first generalizing commented with
  | nil => rfl
  | cons c rest ih => exact ih

theorem commentedFrom_eq_or (plain : '\n' ∉ text) :
    commentedFrom commented text = (commented || text.contains '#') := by
  induction text generalizing commented with
  | nil => simp [commentedFrom]
  | cons c rest ih =>
      rw [List.mem_cons, not_or] at plain
      rw [commentedFrom, ih plain.2, bne_iff_ne.mpr (Ne.symm plain.1), Bool.true_and,
        List.contains_cons, Bool.or_assoc, Bool.beq_comm]

theorem commentedFrom_plain (plain : '\n' ∉ text) :
    commentedFrom false text = false ↔ '#' ∉ text := by
  simp [commentedFrom_eq_or plain]

theorem commentedFrom_append_feed (first second : List Char) :
    commentedFrom commented (first ++ '\n' :: second) = commentedFrom false second := by
  rw [commentedFrom_append]
  rfl

end

/-- Blanks or the ends of the text stand on both sides, or a comment follows at once. -/
structure StandsClear (before after : List Char) : Prop where
  left : ∀ c ∈ before.getLast?, isBlank c = true
  right : ∀ c ∈ after.head?, isBlank c = true ∨ c = '#'

section

variable {word : List Char}

theorem mem_words_uncommented (some : word ≠ []) (visible : ∀ c ∈ word, isBlank c = false)
    (uncommented : '#' ∉ word) {line : List Char} :
    word ∈ words (line.takeWhile (· ≠ '#')) ↔
      ∃ before after, line = before ++ (word ++ after) ∧ '#' ∉ before ∧
        StandsClear before after := by
  constructor
  · intro member
    obtain ⟨before, after, split, apart⟩ := apart_of_mem_words member
    refine ⟨before, after ++ line.dropWhile (· ≠ '#'), ?_, ?_, apart.left, ?_⟩
    · rw [← List.append_assoc, ← List.append_assoc, List.append_assoc before, ← split,
        List.takeWhile_append_dropWhile]
    · intro inside
      have kept : '#' ∈ line.takeWhile (· ≠ '#') := split ▸ List.mem_append_left _ inside
      simpa using List.mem_takeWhile_imp kept
    · intro c first
      cases after with
      | nil =>
          have stopped := List.head?_dropWhile_not (fun c => decide (c ≠ '#')) line
          simp only [List.nil_append, Option.mem_def] at first
          rw [first] at stopped
          exact .inr (by simpa using stopped)
      | cons d others => exact .inl (apart.right c first)
  · rintro ⟨before, after, rfl, shown, clear⟩
    have kept : (before ++ (word ++ after)).takeWhile (· ≠ '#') =
        before ++ (word ++ after.takeWhile (· ≠ '#')) := by
      rw [List.takeWhile_append_of_pos, List.takeWhile_append_of_pos]
      · intro c member
        exact decide_eq_true fun same => uncommented (same ▸ member)
      · intro c member
        exact decide_eq_true fun same => shown (same ▸ member)
    rw [kept]
    refine mem_words_of_apart some visible ⟨clear.left, ?_⟩
    cases after with
    | nil => simp
    | cons c others =>
        by_cases comment : c = '#'
        · simp [comment]
        · simpa [comment] using clear.right c rfl

theorem words_dropFinalReturn (line : List Char) :
    words ((dropFinalReturn line).takeWhile (· ≠ '#')) = words (line.takeWhile (· ≠ '#')) := by
  rcases List.eq_nil_or_concat line with rfl | ⟨earlier, c, rfl⟩
  · rfl
  · rw [List.concat_eq_append]
    by_cases returned : c = '\r'
    · have dropped : dropFinalReturn (earlier ++ [c]) = earlier := by
        simp [dropFinalReturn, returned]
      rw [dropped, List.takeWhile_append]
      split
      · rename_i whole
        have same : earlier.takeWhile (· ≠ '#') = earlier :=
          (List.takeWhile_prefix _).eq_of_length whole
        have blank : isBlank c = true := by rw [returned]; decide
        have kept : [c].takeWhile (· ≠ '#') = [c] := by simp [returned]
        rw [same, kept, words_append_blank blank]
        exact (List.append_nil _).symm
      · rfl
    · have kept : dropFinalReturn (earlier ++ [c]) = earlier ++ [c] := by
        simp [dropFinalReturn, returned]
      rw [kept]

theorem StandsClear.append_feed_left {first before after : List Char} :
    StandsClear (first ++ '\n' :: before) after ↔ StandsClear before after := by
  have blank : isBlank '\n' = true := by decide
  have left := getLast?_append_blank blank first before
  exact ⟨fun clear => ⟨left.mp clear.left, clear.right⟩,
    fun clear => ⟨left.mpr clear.left, clear.right⟩⟩

theorem StandsClear.append_feed_right {before after rest : List Char} :
    StandsClear before (after ++ '\n' :: rest) ↔ StandsClear before after := by
  cases after with
  | nil => exact ⟨fun clear => ⟨clear.left, by simp⟩, fun clear => ⟨clear.left, by simp; decide⟩⟩
  | cons c others =>
      exact ⟨fun clear => ⟨clear.left, clear.right⟩, fun clear => ⟨clear.left, clear.right⟩⟩

/-- A word is on some line in front of its comment where it stands clear in the text and no comment
is open. -/
theorem any_pieces_iff (some : word ≠ []) (visible : ∀ c ∈ word, isBlank c = false)
    (uncommented : '#' ∉ word) {text : List Char} :
    (∃ line ∈ lineFeedPieces text, word ∈ words (line.takeWhile (· ≠ '#'))) ↔
      ∃ before after, text = before ++ (word ++ after) ∧ commentedFrom false before = false ∧
        StandsClear before after := by
  by_cases feed : '\n' ∈ text
  · obtain ⟨first, rest, rfl, plain⟩ := List.eq_append_cons_of_mem feed
    have shorter : rest.length < (first ++ '\n' :: rest).length := by
      rw [List.length_append, List.length_cons]
      omega
    rw [lineFeedPieces_append plain, List.exists_mem_cons_iff,
      mem_words_uncommented some visible uncommented,
      any_pieces_iff some visible uncommented]
    constructor
    · rintro (⟨before, after, rfl, shown, clear⟩ | ⟨before, after, rfl, shown, clear⟩)
      · have plainBefore : '\n' ∉ before := fun member => plain (List.mem_append_left _ member)
        exact ⟨before, after ++ '\n' :: rest, by simp, (commentedFrom_plain plainBefore).mpr shown,
          StandsClear.append_feed_right.mpr clear⟩
      · exact ⟨first ++ '\n' :: before, after, by simp,
          (commentedFrom_append_feed first before).trans shown,
          StandsClear.append_feed_left.mpr clear⟩
    · rintro ⟨before, after, split, shown, clear⟩
      have outside : '\n' ∉ word := fun member => absurd (visible _ member) (by decide)
      rcases word_beside outside split with ⟨more, rfl, rfl⟩ | ⟨more, rfl, rfl⟩
      · have plainBefore : '\n' ∉ before := fun member => plain (List.mem_append_left _ member)
        exact .inl ⟨before, more, rfl, (commentedFrom_plain plainBefore).mp shown,
          StandsClear.append_feed_right.mp clear⟩
      · rw [commentedFrom_append_feed] at shown
        exact .inr ⟨more, after, rfl, shown, StandsClear.append_feed_left.mp clear⟩
  · simp only [lineFeedPieces_plain feed, List.mem_singleton, exists_eq_left,
      mem_words_uncommented some visible uncommented]
    refine exists_congr fun before => exists_congr fun after => and_congr_right fun split => ?_
    have plainBefore : '\n' ∉ before := fun member => feed (split ▸ List.mem_append_left _ member)
    rw [commentedFrom_plain plainBefore]
termination_by text.length

end

/-- The search finds the keyword where it stands clear and no comment is open. -/
theorem mentionsRepeatable_iff {text : List Char} :
    mentionsRepeatable text = true ↔
      ∃ before after, text = before ++ ("repeatable".toList ++ after) ∧
        commentedFrom false before = false ∧ StandsClear before after := by
  have returns (line : List Char) : (words ((dropFinalReturn line).takeWhile (· ≠ '#'))).contains
      "repeatable".toList = (words (line.takeWhile (· ≠ '#'))).contains "repeatable".toList :=
    congrArg (List.contains · _) (words_dropFinalReturn line)
  rw [← any_pieces_iff (by decide) (by simp [isBlank]) (by decide), mentionsRepeatable,
    any_lines rfl returns, List.any_eq_true]
  simp only [List.contains_iff_mem]

end GraphqlReference.Sdl
