import Mathlib.Data.List.Infix
import GraphqlReference.Text.Position

namespace GraphqlReference.Text

/-!
A position leads back to the place that it was taken at, unless a carriage return stands alone: such
a one goes back to positions that have been passed before.
-/

/-- A line feed follows every carriage return. -/
def HasPairedReturns (text : List Char) : Prop :=
  ∀ before after, text = before ++ '\r' :: after → ['\n'] <+: after

variable {before behind text : List Char}

theorem hasPairedReturns_of_not_mem (absent : '\r' ∉ text) : HasPairedReturns text := by
  rintro before after rfl
  exact absurd (by simp) absent

theorem HasPairedReturns.right (paired : HasPairedReturns (before ++ behind)) :
    HasPairedReturns behind := by
  rintro earlier after rfl
  exact paired (before ++ earlier) after (List.append_assoc _ _ _).symm

theorem HasPairedReturns.tail {c : Char} (paired : HasPairedReturns (c :: text)) :
    HasPairedReturns text := by
  have whole : HasPairedReturns ([c] ++ text) := paired
  exact whole.right

/-- What stands in front of anything but a line feed does not end in the middle of a line end. -/
theorem HasPairedReturns.left (paired : HasPairedReturns (before ++ behind))
    (other : ¬ ['\n'] <+: behind) : HasPairedReturns before := by
  rintro earlier after rfl
  have next : ['\n'] <+: after ++ behind := paired earlier (after ++ behind) (by simp)
  cases after with
  | nil => exact absurd next other
  | cons c after =>
      obtain ⟨rest, same⟩ := next
      obtain rfl : '\n' = c := (List.cons.inj same).1
      exact ⟨after, rfl⟩

namespace Position

variable {current : Position}

theorem line_le_advance (c : Char) : current.line ≤ (current.advance c).line := by
  unfold advance
  split
  · exact Nat.le_succ _
  · split <;> exact Nat.le_refl _

theorem line_le_foldl (text : List Char) : current.line ≤ (text.foldl advance current).line := by
  induction text generalizing current with
  | nil => exact Nat.le_refl _
  | cons c rest ih => exact Nat.le_trans (line_le_advance c) ih

theorem line_lt_foldl (member : '\n' ∈ text) :
    current.line < (text.foldl advance current).line := by
  induction text generalizing current with
  | nil => exact absurd member List.not_mem_nil
  | cons c rest ih =>
      rcases List.mem_cons.mp member with rfl | later
      · have next : (current.advance '\n').line = current.line + 1 := rfl
        have behind : (current.advance '\n').line ≤ _ := line_le_foldl rest
        rw [List.foldl_cons]
        omega
      · exact Nat.lt_of_le_of_lt (line_le_advance c) (ih later)

theorem foldl_advance_plain (feed : '\n' ∉ text) (carriage : '\r' ∉ text) :
    text.foldl advance current = { current with column := current.column + text.length } := by
  induction text generalizing current with
  | nil => rfl
  | cons c rest ih =>
      rw [List.mem_cons, not_or] at feed carriage
      rw [List.foldl_cons, ih feed.2 carriage.2, advance, if_neg (Ne.symm feed.1),
        if_neg (Ne.symm carriage.1), List.length_cons]
      congr 1
      dsimp only
      omega

/-- A text leads back to where it began only if a return goes back on the line that it began on. -/
theorem foldl_advance_eq_self (same : text.foldl advance current = current) :
    text = [] ∨ '\r' ∈ text ∧ '\n' ∉ text := by
  have feed : '\n' ∉ text := by
    intro member
    have further : current.line < (text.foldl advance current).line := line_lt_foldl member
    rw [same] at further
    exact Nat.lt_irrefl _ further
  by_cases carriage : '\r' ∈ text
  · exact .inr ⟨carriage, feed⟩
  · rw [foldl_advance_plain feed carriage] at same
    have column := congrArg Position.column same
    exact .inl (List.length_eq_zero_iff.mp (Nat.left_eq_add.mp column.symm))

/-- The search for a position that a text leads to ends in that text, at the first place that has
the position. -/
theorem bytesTo?_reached {wanted : Position} (reached : before.foldl advance current = wanted)
    (behind : List Char) : ∃ earlier between, before = earlier ++ between ∧
      earlier.foldl advance current = wanted ∧
      bytesTo? wanted current (before ++ behind) = some (utf8Size earlier) := by
  induction before generalizing current with
  | nil => exact ⟨[], [], rfl, reached, by cases behind <;> exact if_pos reached⟩
  | cons c rest ih =>
      by_cases here : current = wanted
      · exact ⟨[], c :: rest, rfl, here, if_pos here⟩
      · obtain ⟨earlier, between, rfl, led, found⟩ := ih reached
        refine ⟨c :: earlier, between, rfl, led, ?_⟩
        rw [List.cons_append, bytesTo?, if_neg here, found]
        rfl

/-- A position leads back to the first place that has it. Only a return goes back to it later. -/
theorem byteOffset?_after_split (before behind : List Char) :
    ∃ earlier between, before = earlier ++ between ∧ after earlier = after before ∧
      (after before).byteOffset? (before ++ behind) = some (utf8Size earlier) ∧
      (between = [] ∨ '\r' ∈ between ∧ '\n' ∉ between) := by
  have reached : before.foldl advance start = after before := rfl
  obtain ⟨earlier, between, split, led, found⟩ := bytesTo?_reached reached behind
  have same : between.foldl advance (after earlier) = after earlier := by
    calc between.foldl advance (after earlier)
        = after (earlier ++ between) := List.foldl_append.symm
      _ = after earlier := by rw [← split]; exact led.symm
  exact ⟨earlier, between, split, led, found, foldl_advance_eq_self same⟩

/-- The position behind a text leads back to its end, whatever follows. -/
theorem byteOffset?_after (paired : HasPairedReturns before) (behind : List Char) :
    (after before).byteOffset? (before ++ behind) = some (utf8Size before) := by
  obtain ⟨earlier, between, rfl, _, found, rfl | ⟨carriage, feed⟩⟩ :=
    byteOffset?_after_split before behind
  · rw [List.append_nil] at found ⊢
    exact found
  · obtain ⟨first, rest, rfl⟩ := List.append_of_mem carriage
    have next := (paired.right first rest rfl).subset List.mem_cons_self
    exact absurd (List.mem_append_right first (List.mem_cons_of_mem _ next)) feed

end Position

theorem utf8Size_append (first second : List Char) :
    utf8Size (first ++ second) = utf8Size first + utf8Size second := by
  induction first with
  | nil => exact (Nat.zero_add _).symm
  | cons c rest ih => rw [List.cons_append, utf8Size, utf8Size, ih, Nat.add_assoc]

theorem dropBytes?_append (first second : List Char) :
    dropBytes? (utf8Size first) (first ++ second) = some second := by
  induction first with
  | nil => cases second <;> rfl
  | cons c rest ih =>
      obtain ⟨count, positive⟩ := Nat.exists_eq_succ_of_ne_zero c.utf8Size_pos.ne'
      simp [utf8Size, dropBytes?, positive, Nat.succ_add, ih]

theorem takeBytes?_append (first second : List Char) :
    takeBytes? (utf8Size first) (first ++ second) = some first := by
  induction first with
  | nil => cases second <;> rfl
  | cons c rest ih =>
      obtain ⟨count, positive⟩ := Nat.exists_eq_succ_of_ne_zero c.utf8Size_pos.ne'
      simp [utf8Size, takeBytes?, positive, Nat.succ_add, ih]

theorem byteSlice?_append (before between behind : List Char) :
    byteSlice? (before ++ (between ++ behind)) (utf8Size before) (utf8Size (before ++ between)) =
      some between := by
  have order : utf8Size before ≤ utf8Size (before ++ between) := by
    rw [utf8Size_append]
    exact Nat.le_add_right _ _
  rw [byteSlice?, if_pos order, dropBytes?_append, utf8Size_append, Nat.add_sub_cancel_left]
  exact takeBytes?_append between behind

end GraphqlReference.Text
