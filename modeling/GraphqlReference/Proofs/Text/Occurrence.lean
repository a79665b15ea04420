namespace GraphqlReference.Text

variable {α : Type}

/-- An element of two lists in a row stands in one of them. -/
theorem append_eq_append_cons {left right before after : List α} {c : α}
    (same : left ++ right = before ++ c :: after) :
    (∃ rest, left = before ++ c :: rest ∧ after = rest ++ right) ∨
      ∃ rest, before = left ++ rest ∧ right = rest ++ c :: after := by
  rcases List.append_eq_append_iff.mp same with ⟨rest, longer, behind⟩ | ⟨rest, longer, behind⟩
  · exact .inr ⟨rest, longer, behind⟩
  · cases rest with
    | nil =>
        have here : left = before := by simpa using longer
        exact .inr ⟨[], by simp [here], by simpa using behind.symm⟩
    | cons first rest =>
        rw [List.cons_append, List.cons.injEq] at behind
        obtain ⟨rfl, behind⟩ := behind
        exact .inl ⟨rest, longer, behind⟩

/-- The place of an element is its first one, unless the element stands in front of it too. -/
theorem append_cons_eq_append_cons {left right before after : List α} {c : α}
    (first : c ∉ left) (same : left ++ c :: right = before ++ c :: after) :
    (before = left ∧ after = right) ∨
      ∃ rest, before = left ++ c :: rest ∧ right = rest ++ c :: after := by
  rcases append_eq_append_cons same with ⟨rest, inLeft, _⟩ | ⟨rest, longer, behind⟩
  · exact absurd (by simp [inLeft]) first
  · cases rest with
    | nil =>
        rw [List.nil_append, List.cons.injEq] at behind
        exact .inl ⟨by simpa using longer, behind.2.symm⟩
    | cons head rest =>
        rw [List.cons_append, List.cons.injEq] at behind
        obtain ⟨rfl, behind⟩ := behind
        exact .inr ⟨rest, longer, behind⟩

/-- A list is cut in one way only in front of the first place of an element. -/
theorem append_cons_inj_of_not_mem {left left' right right' : List α} {c : α}
    (first : c ∉ left) (first' : c ∉ left') (same : left ++ c :: right = left' ++ c :: right') :
    left = left' ∧ right = right' := by
  rcases append_cons_eq_append_cons first same with ⟨rfl, rfl⟩ | ⟨rest, longer, _⟩
  · exact ⟨rfl, rfl⟩
  · exact absurd (by simp [longer]) first'

/-- A word does not extend over an element that is none of its own. -/
theorem word_beside {word left right before after : List α} {c : α} (outside : c ∉ word)
    (same : left ++ c :: right = before ++ (word ++ after)) :
    (∃ rest, left = before ++ (word ++ rest) ∧ after = rest ++ c :: right) ∨
      ∃ rest, before = left ++ c :: rest ∧ right = rest ++ (word ++ after) := by
  rcases append_eq_append_cons same.symm with ⟨rest, inBefore, behind⟩ | ⟨rest, longer, behind⟩
  · exact .inr ⟨rest, inBefore, behind⟩
  · rcases append_eq_append_cons behind with ⟨inner, inWord, _⟩ | ⟨inner, longerWord, behindWord⟩
    · exact absurd (by simp [inWord]) outside
    · exact .inl ⟨inner, by rw [longer, longerWord], behindWord⟩

/-- A word up to the first place of an element either ends there or stands behind it. -/
theorem word_before_first {left right word before after : List α} {c : α} (first : c ∉ left)
    (outside : c ∉ word) (same : left ++ c :: right = before ++ (word ++ c :: after)) :
    (left = before ++ word ∧ right = after) ∨
      ∃ rest, before = left ++ c :: rest ∧ right = rest ++ (word ++ c :: after) := by
  rw [← List.append_assoc] at same
  rcases append_cons_eq_append_cons first same with ⟨here, behind⟩ | ⟨rest, longer, behind⟩
  · exact .inl ⟨here.symm, behind.symm⟩
  · rcases append_eq_append_cons longer with ⟨inner, inBefore, inRest⟩ | ⟨inner, _, inWord⟩
    · exact .inr ⟨inner, inBefore, by rw [behind, inRest, List.append_assoc]⟩
    · exact absurd (by simp [inWord]) outside

section

variable {test : α → Bool} {run rest : List α}

theorem takeWhile_run (passes : ∀ c ∈ run, test c = true)
    (stops : ∀ c ∈ rest.head?, test c = false) : (run ++ rest).takeWhile test = run := by
  rw [List.takeWhile_append_of_pos passes]
  cases rest with
  | nil => exact List.append_nil run
  | cons c rest => simp [stops c rfl]

theorem dropWhile_run (passes : ∀ c ∈ run, test c = true)
    (stops : ∀ c ∈ rest.head?, test c = false) : (run ++ rest).dropWhile test = rest := by
  rw [List.dropWhile_append_of_pos passes]
  cases rest with
  | nil => rfl
  | cons c rest => simp [stops c rfl]

end

end GraphqlReference.Text
