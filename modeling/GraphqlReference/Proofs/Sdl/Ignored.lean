import GraphqlReference.Proofs.Sdl.Mentioning
import GraphqlReference.Proofs.Text.Position
import GraphqlReference.Sdl.Lexical

namespace GraphqlReference.Sdl

open Text

/-- What stands in front of the next token, seen from inside a comment or from outside one. -/
inductive Ignored : Bool → List Char → Prop
  | nil : Ignored false []
  | skipped {c : Char} {rest : List Char} (meaningless : isIgnored c = true)
      (behind : Ignored false rest) : Ignored false (c :: rest)
  | comment {rest : List Char} (behind : Ignored true rest) : Ignored false ('#' :: rest)
  | inside {c : Char} {rest : List Char} (inside : isLineEnd c = false)
      (behind : Ignored true rest) : Ignored true (c :: rest)
  | feed {rest : List Char} (behind : Ignored false rest) : Ignored true ('\n' :: rest)
  | returned {rest : List Char} (behind : Ignored false rest) :
      Ignored true ('\r' :: '\n' :: rest)

section

variable {inComment : Bool}

theorem exists_ignored_append {inComment' : Bool} {taken rest : List Char}
    (step : ∀ {front}, Ignored inComment' front → Ignored inComment (taken ++ front))
    (same : skipFrom inComment (taken ++ rest) = skipFrom inComment' rest)
    (found : ∃ front, Ignored inComment' front ∧ rest = front ++ skipFrom inComment' rest) :
    ∃ front, Ignored inComment front ∧
      taken ++ rest = front ++ skipFrom inComment (taken ++ rest) := by
  obtain ⟨front, ignored, split⟩ := found
  refine ⟨taken ++ front, step ignored, ?_⟩
  rw [same, List.append_assoc, ← split]

/-- Where a token comes next, there is nothing but ignored text in front of it. -/
theorem exists_ignored {inComment : Bool} {text : List Char} (paired : HasPairedReturns text)
    (some : skipFrom inComment text ≠ []) :
    ∃ front, Ignored inComment front ∧ text = front ++ skipFrom inComment text := by
  match text, inComment with
  | [], _ => exact absurd rfl some
  | c :: rest, false =>
      by_cases meaningless : isIgnored c = true
      · have same : skipFrom false ([c] ++ rest) = skipFrom false rest := by
          simp [skipFrom, meaningless]
        exact exists_ignored_append (.skipped meaningless) same
          (exists_ignored paired.tail (same ▸ some))
      · by_cases comment : c = '#'
        · obtain rfl := comment
          have same : skipFrom false (['#'] ++ rest) = skipFrom true rest := rfl
          exact exists_ignored_append .comment same (exists_ignored paired.tail some)
        · exact ⟨[], .nil, by simp [skipFrom, meaningless, comment]⟩
  | c :: rest, true =>
      cases ending : isLineEnd c with
      | false =>
          have same : skipFrom true ([c] ++ rest) = skipFrom true rest := by
            simp [skipFrom, ending]
          exact exists_ignored_append (.inside ending) same
            (exists_ignored paired.tail (same ▸ some))
      | true =>
          rcases (by simpa [isLineEnd] using ending : c = '\n' ∨ c = '\r') with rfl | rfl
          · have same : skipFrom true (['\n'] ++ rest) = skipFrom false rest := rfl
            exact exists_ignored_append .feed same (exists_ignored paired.tail some)
          · obtain ⟨rest, rfl⟩ := paired [] rest rfl
            have same : skipFrom true (['\r', '\n'] ++ rest) = skipFrom false rest := rfl
            exact exists_ignored_append .returned same
              (exists_ignored paired.tail.tail some)
termination_by text.length

theorem skipFrom_ignored {front : List Char} (ignored : Ignored inComment front)
    (text : List Char) : skipFrom inComment (front ++ text) = skip text := by
  induction ignored with
  | nil => rfl
  | skipped meaningless behind ih => simpa [skipFrom, meaningless] using ih
  | comment behind ih => simpa [skipFrom, isIgnored, isLineEnd] using ih
  | inside inside behind ih => simpa [skipFrom, inside] using ih
  | feed behind ih => simpa [skipFrom, isLineEnd] using ih
  | returned behind ih => simpa [skipFrom, isIgnored, isLineEnd] using ih

end

/-- Each letter that could begin the keyword is in a comment, and no comment remains open. -/
structure IsMute (commented : Bool) (text : List Char) : Prop where
  closed : commentedFrom commented text = false
  muted : ∀ before after, text = before ++ 'r' :: after → commentedFrom commented before = true

section

variable {commented : Bool} {first second : List Char}

theorem isMute_nil : IsMute false [] where
  closed := rfl
  muted := fun before after same => by simp at same

theorem IsMute.cons {c : Char} (letter : c = 'r' → commented = true)
    (mute : IsMute (c != '\n' && (commented || c == '#')) first) :
    IsMute commented (c :: first) where
  closed := mute.closed
  muted := by
    intro before after same
    cases before with
    | nil => exact letter (List.cons.inj same).1
    | cons d before =>
        obtain ⟨rfl, behind⟩ := List.cons.inj same
        exact mute.muted before after behind

theorem IsMute.append (mute : IsMute commented first) (mute' : IsMute false second) :
    IsMute commented (first ++ second) where
  closed := by
    rw [commentedFrom_append, mute.closed]
    exact mute'.closed
  muted := by
    intro before after same
    rcases append_eq_append_cons same with ⟨rest, here, _⟩ | ⟨rest, rfl, there⟩
    · exact mute.muted before rest here
    · rw [commentedFrom_append, mute.closed]
      exact mute'.muted rest after there

theorem isMute_of_not_mem (letter : 'r' ∉ first) (sign : '#' ∉ first) (feed : '\n' ∉ first) :
    IsMute false first where
  closed := (commentedFrom_plain feed).mpr sign
  muted := by
    rintro before after rfl
    exact absurd (by simp) letter

theorem isMute_of_ignored {inComment : Bool} (ignored : Ignored inComment first) :
    IsMute inComment first := by
  induction ignored with
  | nil => exact isMute_nil
  | @skipped c rest meaningless behind ih =>
      have letter : c ≠ 'r' := by
        rintro rfl
        exact absurd meaningless (by decide)
      have sign : c ≠ '#' := by
        rintro rfl
        exact absurd meaningless (by decide)
      have next : (c != '\n' && (false || c == '#')) = false := by simp [sign]
      rw [← next] at ih
      exact .cons (fun same => absurd same letter) ih
  | comment behind ih => exact .cons (fun same => absurd same (by decide)) ih
  | @inside c rest inside behind ih =>
      have feed : c ≠ '\n' := by
        rintro rfl
        exact absurd inside (by decide)
      have next : (c != '\n' && (true || c == '#')) = true := by simp [feed]
      rw [← next] at ih
      exact .cons (fun _ => rfl) ih
  | feed behind ih => exact .cons (fun same => absurd same (by decide)) ih
  | returned behind ih =>
      have feed : IsMute true ('\n' :: _) := .cons (fun _ => rfl) ih
      exact .cons (fun _ => rfl) feed

theorem not_mentionsRepeatable (mute : IsMute false first) :
    ¬ mentionsRepeatable first = true := by
  rw [mentionsRepeatable_iff]
  rintro ⟨before, after, same, shown, _⟩
  rw [mute.muted before _ same] at shown
  cases shown

/-- The keyword is found between mute texts if it stands clear of them. -/
theorem mentionsRepeatable_between (mute : IsMute false first) (mute' : IsMute false second) :
    mentionsRepeatable (first ++ ("repeatable".toList ++ second)) = true ↔
      StandsClear first second := by
  rw [mentionsRepeatable_iff]
  constructor
  · rintro ⟨before, after, same, shown, clear⟩
    have same : first ++ 'r' :: ("epeatable".toList ++ second) =
        before ++ 'r' :: ("epeatable".toList ++ after) := same
    rcases append_eq_append_cons same with ⟨rest, here, _⟩ | ⟨rest, rfl, there⟩
    · rw [mute.muted before rest here] at shown
      cases shown
    · cases rest with
      | nil =>
          obtain rfl := List.append_cancel_left (List.cons.inj there).2
          rwa [List.append_nil] at clear
      | cons c rest =>
          obtain ⟨rfl, behind⟩ := List.cons.inj there
          have tail : IsMute false "epeatable".toList :=
            isMute_of_not_mem (by decide) (by decide) (by decide)
          have commented : commentedFrom false rest = true :=
            (tail.append mute').muted rest _ behind
          rw [commentedFrom_append, mute.closed] at shown
          exact absurd (commented.symm.trans shown) (by decide)
  · exact fun clear => ⟨first, second, rfl, mute.closed, clear⟩

end

end GraphqlReference.Sdl
