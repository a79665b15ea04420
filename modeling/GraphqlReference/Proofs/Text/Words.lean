import Mathlib.Data.List.Basic
import GraphqlReference.Text.Lines

namespace GraphqlReference.Text

section

variable {c next : Char} {rest : List Char}

theorem words_cons_blank (blank : isBlank c = true) : words (c :: rest) = words rest := by
  rw [words.eq_def]
  exact if_pos blank

theorem words_cons_last (visible : isBlank c = false)
    (ends : ∀ next ∈ rest.head?, isBlank next = true) : words (c :: rest) = [c] :: words rest := by
  rw [words.eq_def]
  cases rest with
  | nil =>
      simp only [visible, Bool.false_eq_true, if_false]
      rfl
  | cons next rest => simp only [visible, ends next rfl, Bool.false_eq_true, if_false, if_true]

theorem words_cons_more {word : List Char} {others : List (List Char)}
    (visible : isBlank c = false) (more : isBlank next = false)
    (found : words (next :: rest) = word :: others) :
    words (c :: next :: rest) = (c :: word) :: others := by
  rw [words.eq_def]
  simp only [visible, more, found, Bool.false_eq_true, if_false]

theorem words_append_word {word : List Char} (some : word ≠ [])
    (visible : ∀ c ∈ word, isBlank c = false) (ends : ∀ c ∈ rest.head?, isBlank c = true) :
    words (word ++ rest) = word :: words rest := by
  induction word with
  | nil => exact absurd rfl some
  | cons c others ih =>
      obtain ⟨visibleHere, visibleThere⟩ := List.forall_mem_cons.mp visible
      cases others with
      | nil => exact words_cons_last visibleHere ends
      | cons next others =>
          have more := visibleThere next List.mem_cons_self
          exact words_cons_more visibleHere more (ih (List.cons_ne_nil next others) visibleThere)

theorem exists_first_word (visible : isBlank c = false) (rest : List Char) :
    ∃ word behind, c :: rest = word ++ behind ∧ word ≠ [] ∧ (∀ d ∈ word, isBlank d = false) ∧
      ∀ d ∈ behind.head?, isBlank d = true := by
  induction rest generalizing c with
  | nil => exact ⟨[c], [], rfl, List.cons_ne_nil c [], by simpa using visible, by simp⟩
  | cons next rest ih =>
      cases more : isBlank next with
      | true =>
          exact ⟨[c], next :: rest, rfl, List.cons_ne_nil c [], by simpa using visible,
            by simpa using more⟩
      | false =>
          obtain ⟨word, behind, split, _, visibleWord, ends⟩ := ih more
          exact ⟨c :: word, behind, congrArg (c :: ·) split, List.cons_ne_nil c word,
            List.forall_mem_cons.mpr ⟨visible, visibleWord⟩, ends⟩

end

/-- A blank ends the words in front of it. -/
theorem words_append_blank {c : Char} (blank : isBlank c = true) (first second : List Char) :
    words (first ++ c :: second) = words first ++ words second := by
  cases first with
  | nil => exact words_cons_blank blank
  | cons x rest =>
      cases visible : isBlank x with
      | true =>
          rw [List.cons_append, words_cons_blank visible, words_cons_blank visible,
            words_append_blank blank]
      | false =>
          obtain ⟨word, behind, split, some, visibleWord, ends⟩ := exists_first_word visible rest
          have shorter : behind.length < (x :: rest).length := by
            have positive := List.length_pos_iff.mpr some
            rw [split, List.length_append]
            omega
          have ends' : ∀ d ∈ (behind ++ c :: second).head?, isBlank d = true := by
            cases behind with
            | nil => simpa using blank
            | cons => simpa using ends
          rw [split, List.append_assoc, words_append_word some visibleWord ends,
            words_append_word some visibleWord ends', words_append_blank blank, List.cons_append]
termination_by first.length
decreasing_by
  · exact shorter
  · exact Nat.lt_succ_self _

/-- Blanks or the ends of the text stand on both sides. -/
structure StandsApart (before after : List Char) : Prop where
  left : ∀ c ∈ before.getLast?, isBlank c = true
  right : ∀ c ∈ after.head?, isBlank c = true

section

variable {word before after : List Char}

theorem getLast?_append_blank {c : Char} (blank : isBlank c = true) (first second : List Char) :
    (∀ d ∈ (first ++ c :: second).getLast?, isBlank d = true) ↔
      ∀ d ∈ second.getLast?, isBlank d = true := by
  rw [List.getLast?_append, List.getLast?_cons, Option.some_or]
  cases second.getLast? <;> simp [blank]

theorem StandsApart.behind_blank (apart : StandsApart before after) (earlier : List Char) {c : Char}
    (blank : isBlank c = true) : StandsApart (earlier ++ c :: before) after :=
  ⟨(getLast?_append_blank blank earlier before).mpr apart.left, apart.right⟩

theorem mem_words_of_apart (some : word ≠ []) (visible : ∀ c ∈ word, isBlank c = false)
    (apart : StandsApart before after) : word ∈ words (before ++ (word ++ after)) := by
  have here := words_append_word some visible apart.right
  rcases List.eq_nil_or_concat before with rfl | ⟨earlier, c, rfl⟩
  · rw [List.nil_append, here]
    exact List.mem_cons_self
  · have blank : isBlank c = true := apart.left c (by simp)
    rw [List.concat_append, words_append_blank blank, here]
    exact List.mem_append_right _ List.mem_cons_self

/-- Each word of a text stands somewhere in it, apart from others. -/
theorem apart_of_mem_words {text : List Char} (member : word ∈ words text) :
    ∃ before after, text = before ++ (word ++ after) ∧ StandsApart before after := by
  cases text with
  | nil => exact absurd member List.not_mem_nil
  | cons c rest =>
      cases visible : isBlank c with
      | true =>
          rw [words_cons_blank visible] at member
          obtain ⟨before, after, same, apart⟩ := apart_of_mem_words member
          exact ⟨c :: before, after, congrArg (c :: ·) same, apart.behind_blank [] visible⟩
      | false =>
          obtain ⟨first, behind, split, some, visibleFirst, ends⟩ := exists_first_word visible rest
          rw [split, words_append_word some visibleFirst ends] at member
          rcases List.mem_cons.mp member with rfl | later
          · exact ⟨[], behind, split, ⟨by simp, ends⟩⟩
          · cases behind with
            | nil => exact absurd later List.not_mem_nil
            | cons d others =>
                have blank : isBlank d = true := ends d rfl
                rw [words_cons_blank blank] at later
                have shorter : others.length < (c :: rest).length := by
                  rw [split, List.length_append, List.length_cons]
                  omega
                obtain ⟨before, after, same, apart⟩ := apart_of_mem_words later
                refine ⟨first ++ d :: before, after, ?_, apart.behind_blank first blank⟩
                rw [split, same, List.append_assoc, List.cons_append]
termination_by text.length

end

end GraphqlReference.Text
