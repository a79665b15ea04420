import GraphqlReference.Text.Reader

namespace GraphqlReference.Text

variable {α β : Type}

def Reads (reader : Reader α) (property : α → Prop) : Prop :=
  ∀ text result rest, reader text = some (result, rest) → property result

variable {reader : Reader α} {property : α → Prop}

theorem Reads.optional (reads : Reads reader property) (text : List Char) :
    ∀ result ∈ (optional reader text).1, property result := by
  intro result member
  unfold Text.optional at member
  split at member
  · rename_i found rest read
    obtain rfl : found = result := by simpa using member
    exact reads _ _ _ read
  · simp at member

theorem Reads.optional_getD {reader : Reader (List α)}
    (reads : Reads reader fun results => ∀ result ∈ results, property result) (text : List Char) :
    ∀ result ∈ (Text.optional reader text).1.getD [], property result := by
  have found := reads.optional text
  cases results : (Text.optional reader text).1 with
  | none => simp
  | some results => exact found _ results

theorem Reads.manyWithin (reads : Reads reader property) (fuel : Nat) (text : List Char) :
    ∀ result ∈ (manyWithin reader fuel text).1, property result := by
  induction fuel generalizing text with
  | zero => simp [Text.manyWithin]
  | succ fuel ih =>
      unfold Text.manyWithin
      split
      · rename_i first rest read
        exact List.forall_mem_cons.mpr ⟨reads _ _ _ read, ih rest⟩
      · simp

theorem Reads.many (reads : Reads reader property) (text : List Char) :
    ∀ result ∈ (many reader text).1, property result :=
  reads.manyWithin text.length text

theorem Reads.some1 (reads : Reads reader property) :
    Reads (some1 reader) fun results => ∀ result ∈ results, property result := by
  intro text results rest read
  obtain ⟨⟨first, behind⟩, readFirst, others⟩ := Option.bind_eq_some_iff.mp read
  obtain ⟨⟩ := others
  exact List.forall_mem_cons.mpr ⟨reads _ _ _ readFirst, reads.many behind⟩

theorem Reads.orElse {other : Reader α} (reads : Reads reader property)
    (reads' : Reads other property) : Reads (fun text => reader text <|> other text) property := by
  intro text result rest read
  cases first : reader text with
  | none => exact reads' _ _ _ (by simpa [first] using read)
  | some found =>
      obtain rfl : found = (result, rest) := by simpa [first] using read
      exact reads _ _ _ first

theorem Reads.map {change : α → β} {image : β → Prop} (reads : Reads reader property)
    (changed : ∀ result, property result → image (change result)) :
    Reads (fun text => (reader text).map fun (result, rest) => (change result, rest)) image := by
  intro text result rest read
  obtain ⟨⟨found, _⟩, readFound, ⟨⟩⟩ := Option.map_eq_some_iff.mp read
  exact changed found (reads _ _ _ readFound)

end GraphqlReference.Text
