import Mathlib.Data.List.Basic
import GraphqlReference.Text.Reader

namespace GraphqlReference.Text

variable {α β : Type}

structure Consumes (reader : Reader α) : Prop where
  suffix : ∀ {text result rest}, reader text = some (result, rest) → rest <:+ text

variable {reader : Reader α}

theorem Consumes.optional (consumes : Consumes reader) (text : List Char) :
    (optional reader text).2 <:+ text := by
  unfold Text.optional
  split
  · exact consumes.suffix ‹_›
  · exact List.suffix_rfl

theorem Consumes.manyWithin (consumes : Consumes reader) (fuel : Nat) (text : List Char) :
    (manyWithin reader fuel text).2 <:+ text := by
  induction fuel generalizing text with
  | zero => exact List.suffix_rfl
  | succ fuel ih =>
      unfold Text.manyWithin
      split
      · exact (ih _).trans (consumes.suffix ‹_›)
      · exact List.suffix_rfl

theorem Consumes.many (consumes : Consumes reader) (text : List Char) :
    (many reader text).2 <:+ text :=
  consumes.manyWithin text.length text

theorem Consumes.some1 (consumes : Consumes reader) : Consumes (some1 reader) := by
  refine ⟨fun {text results rest} read => ?_⟩
  obtain ⟨⟨_, behind⟩, readFirst, ⟨⟩⟩ := Option.bind_eq_some_iff.mp read
  exact (consumes.many behind).trans (consumes.suffix readFirst)

theorem Consumes.orElse {other : Reader α} (consumes : Consumes reader)
    (consumes' : Consumes other) : Consumes (fun text => reader text <|> other text) := by
  refine ⟨fun {text result rest} read => ?_⟩
  cases first : reader text with
  | none => exact consumes'.suffix (by simpa [first] using read)
  | some found =>
      obtain rfl : found = (result, rest) := by simpa [first] using read
      exact consumes.suffix first

theorem Consumes.map (consumes : Consumes reader) (change : α → β) :
    Consumes (fun text => (reader text).map fun (result, rest) => (change result, rest)) := by
  refine ⟨fun {text result rest} read => ?_⟩
  obtain ⟨_, readFound, ⟨⟩⟩ := Option.map_eq_some_iff.mp read
  exact consumes.suffix readFound

theorem suffix_of_behind? {word : String} {text rest : List Char}
    (found : behind? word text = some rest) : rest <:+ text := by
  rw [behind?, List.isPrefixOf?_eq_some_iff_append_eq] at found
  exact ⟨_, found⟩

/-- Each of the results has been read somewhere in the text. -/
theorem Consumes.of_manyWithin (consumes : Consumes reader) {fuel : Nat} {text : List Char}
    {result : α} (member : result ∈ (Text.manyWithin reader fuel text).1) :
    ∃ here rest, here <:+ text ∧ reader here = some (result, rest) := by
  induction fuel generalizing text with
  | zero => exact absurd member List.not_mem_nil
  | succ fuel ih =>
      unfold Text.manyWithin at member
      split at member
      · rename_i read
        rcases List.mem_cons.mp member with rfl | later
        · exact ⟨text, _, List.suffix_rfl, read⟩
        · obtain ⟨here, rest, behind, readHere⟩ := ih later
          exact ⟨here, rest, behind.trans (consumes.suffix read), readHere⟩
      · exact absurd member List.not_mem_nil

theorem Consumes.of_some1 (consumes : Consumes reader) {text rest : List Char} {results : List α}
    (read : Text.some1 reader text = some (results, rest)) {result : α}
    (member : result ∈ results) :
    ∃ here rest, here <:+ text ∧ reader here = some (result, rest) := by
  obtain ⟨⟨first, behind⟩, readFirst, ⟨⟩⟩ := Option.bind_eq_some_iff.mp read
  rcases List.mem_cons.mp member with rfl | later
  · exact ⟨text, _, List.suffix_rfl, readFirst⟩
  · obtain ⟨here, rest, inside, readHere⟩ := consumes.of_manyWithin later
    exact ⟨here, rest, inside.trans (consumes.suffix readFirst), readHere⟩

end GraphqlReference.Text
