import Mathlib.Data.List.DropRight
import GraphqlReference.Proofs.Text.Position

namespace GraphqlReference.Text

/-!
Every place between characters has a position, and the position leads back to the first place that
has it. A later place has the same position only if a carriage return has gone back to it on the
same line.
-/

variable {text before : List Char} {count : Nat}

theorem eq_append_of_takeBytes? (taken : takeBytes? count text = some before) :
    ∃ behind, text = before ++ behind ∧ utf8Size before = count := by
  induction text generalizing count before with
  | nil =>
      cases count with
      | zero =>
          obtain ⟨⟩ := taken
          exact ⟨[], rfl, rfl⟩
      | succ count => cases taken
  | cons c rest ih =>
      cases count with
      | zero =>
          obtain ⟨⟩ := taken
          exact ⟨c :: rest, rfl, rfl⟩
      | succ count =>
          simp only [takeBytes?] at taken
          split at taken
          · rename_i fits
            obtain ⟨inner, takenRest, rfl⟩ := Option.map_eq_some_iff.mp taken
            obtain ⟨behind, rfl, size⟩ := ih takenRest
            refine ⟨behind, rfl, ?_⟩
            rw [utf8Size, size, Nat.add_sub_cancel' fits]
          · cases taken

/-- Exactly the sizes of what stands in front can be taken. -/
theorem takeBytes?_eq_some_iff : takeBytes? count text = some before ↔
    ∃ behind, text = before ++ behind ∧ utf8Size before = count := by
  refine ⟨eq_append_of_takeBytes?, ?_⟩
  rintro ⟨behind, rfl, rfl⟩
  exact takeBytes?_append before behind

namespace Position

/-- The position at a byte offset of a text, if the offset stands between characters. -/
def ofByteOffset? (source : List Char) (offset : Nat) : Option Position :=
  (takeBytes? offset source).map after

theorem ofByteOffset?_eq_some_iff {source : List Char} {offset : Nat} {position : Position} :
    ofByteOffset? source offset = some position ↔
      ∃ before behind, source = before ++ behind ∧ utf8Size before = offset ∧
        after before = position := by
  simp only [ofByteOffset?, Option.map_eq_some_iff, takeBytes?_eq_some_iff, exists_and_right,
    and_assoc]

/-- Whether a character stays on the line and does not go back to its first column. -/
def keepsOn (c : Char) : Bool :=
  c != '\n' && c != '\r'

/-- Line feeds count the lines. The column counts what stands behind the last character that goes
back to the first column. -/
theorem after_eq (text : List Char) :
    after text = ⟨text.count '\n' + 1, (text.rtakeWhile keepsOn).length + 1⟩ := by
  induction text using List.reverseRecOn with
  | nil => rfl
  | append_singleton text c ih =>
      have step : after (text ++ [c]) = (after text).advance c :=
        List.foldl_concat advance start c text
      rw [step, ih, List.count_append, List.rtakeWhile_concat, advance]
      by_cases feed : c = '\n'
      · subst c
        simp [keepsOn]
      · by_cases carriage : c = '\r'
        · subst c
          simp [keepsOn]
        · simp [keepsOn, feed, carriage]

theorem bytesTo?_sound {wanted current : Position} {source : List Char}
    (found : bytesTo? wanted current source = some count) :
    ∃ before behind, source = before ++ behind ∧ utf8Size before = count ∧
      before.foldl advance current = wanted := by
  induction source generalizing current count with
  | nil =>
      obtain ⟨here, ⟨⟩⟩ := Option.ite_none_right_eq_some.mp found
      exact ⟨[], [], rfl, rfl, here⟩
  | cons c rest ih =>
      rw [bytesTo?] at found
      split at found
      · obtain ⟨⟩ := found
        exact ⟨[], c :: rest, rfl, rfl, ‹_›⟩
      · obtain ⟨further, foundRest, rfl⟩ := Option.map_eq_some_iff.mp found
        obtain ⟨before, behind, rfl, rfl, led⟩ := ih foundRest
        exact ⟨c :: before, behind, rfl, rfl, led⟩

section

variable {source : List Char} {offset : Nat} {position : Position}

theorem exists_byteOffset? (placed : ofByteOffset? source offset = some position) :
    ∃ first, position.byteOffset? source = some first ∧ first ≤ offset ∧
      ofByteOffset? source first = some position ∧
      (first = offset ∨ ∃ between, byteSlice? source first offset = some between ∧
        '\r' ∈ between ∧ '\n' ∉ between) := by
  obtain ⟨before, behind, rfl, rfl, rfl⟩ := ofByteOffset?_eq_some_iff.mp placed
  obtain ⟨earlier, between, rfl, same, found, parted⟩ := byteOffset?_after_split before behind
  refine ⟨utf8Size earlier, found, ?_, ?_, ?_⟩
  · rw [utf8Size_append]
    exact Nat.le_add_right _ _
  · exact ofByteOffset?_eq_some_iff.mpr
      ⟨earlier, between ++ behind, List.append_assoc _ _ _, rfl, same⟩
  · rcases parted with rfl | marks
    · exact .inl (by rw [List.append_nil])
    · refine .inr ⟨between, ?_, marks⟩
      rw [List.append_assoc]
      exact byteSlice?_append earlier between behind

theorem byteOffset?_eq_none_iff :
    position.byteOffset? source = none ↔ ∀ offset, ofByteOffset? source offset ≠ some position := by
  constructor
  · intro missed offset placed
    obtain ⟨first, found, _⟩ := exists_byteOffset? placed
    rw [missed] at found
    cases found
  · intro nowhere
    rw [Option.eq_none_iff_forall_ne_some]
    intro offset found
    obtain ⟨before, behind, same, size, led⟩ := bytesTo?_sound found
    exact nowhere offset (ofByteOffset?_eq_some_iff.mpr ⟨before, behind, same, size, led⟩)

end

/-- The places of a source have the positions that their line feeds and columns give. A position
leads back to the first place that has it, and the text between this place and another one with the
same position holds a carriage return and no line feed. A position that no place has leads
nowhere. -/
theorem byteOffset?_first (source : List Char) :
    (∀ before behind, source = before ++ behind →
      ofByteOffset? source (utf8Size before) =
        some ⟨before.count '\n' + 1, (before.rtakeWhile keepsOn).length + 1⟩) ∧
    (∀ offset position, ofByteOffset? source offset = some position →
      ∃ first, position.byteOffset? source = some first ∧ first ≤ offset ∧
        ofByteOffset? source first = some position ∧
        (first = offset ∨ ∃ between, byteSlice? source first offset = some between ∧
          '\r' ∈ between ∧ '\n' ∉ between)) ∧
    ∀ position, position.byteOffset? source = none ↔
      ∀ offset, ofByteOffset? source offset ≠ some position := by
  refine ⟨fun before behind same => ?_, fun _ _ => exists_byteOffset?, fun _ =>
    byteOffset?_eq_none_iff⟩
  exact ofByteOffset?_eq_some_iff.mpr ⟨before, behind, same, rfl, after_eq before⟩

/-- Behind a letter of two bytes and the end of a line, a return goes back to a column that has been
passed before. A third line is not reached. -/
theorem byteOffset?_first_carriage :
    ofByteOffset? "é\nab\rcd".toList 7 = some ⟨2, 2⟩ ∧
      (Position.mk 2 2).byteOffset? "é\nab\rcd".toList = some 4 ∧
      (∃ between, byteSlice? "é\nab\rcd".toList 4 7 = some between ∧
        '\r' ∈ between ∧ '\n' ∉ between) ∧
      (Position.mk 3 1).byteOffset? "é\nab\rcd".toList = none := by
  obtain ⟨_, located, missed⟩ := byteOffset?_first "é\nab\rcd".toList
  have placed : ofByteOffset? "é\nab\rcd".toList 7 = some ⟨2, 2⟩ := by decide
  have four : (Position.mk 2 2).byteOffset? "é\nab\rcd".toList = some 4 := by decide
  obtain ⟨first, found, _, _, parted⟩ := located 7 ⟨2, 2⟩ placed
  obtain ⟨⟩ := four.symm.trans found
  refine ⟨placed, four, parted.resolve_left (by decide), (missed ⟨3, 1⟩).mpr ?_⟩
  intro offset third
  obtain ⟨before, behind, same, _, led⟩ := ofByteOffset?_eq_some_iff.mp third
  have feeds : before.count '\n' ≤ 1 :=
    (List.IsPrefix.sublist ⟨behind, same.symm⟩).count_le '\n'
  have line := congrArg Position.line ((after_eq before).symm.trans led)
  dsimp only at line
  omega

end Position

end GraphqlReference.Text
