import GraphqlReference.Proofs.Sdl.Consuming
import GraphqlReference.Proofs.Sdl.Integers

namespace GraphqlReference

namespace Text

variable {α β : Type}

/-- What a reader leaves is shorter than the text that it has been given. -/
structure Shortens (reader : Reader α) : Prop where
  shorter : ∀ {text result rest}, reader text = some (result, rest) → rest.length < text.length

variable {reader : Reader α}

theorem Shortens.orElse {other : Reader α} (shortens : Shortens reader)
    (shortens' : Shortens other) : Shortens (fun text => reader text <|> other text) := by
  refine ⟨fun {text result rest} read => ?_⟩
  cases first : reader text with
  | none => exact shortens'.shorter (by simpa [first] using read)
  | some found =>
      obtain rfl : found = (result, rest) := by simpa [first] using read
      exact shortens.shorter first

theorem Shortens.map (shortens : Shortens reader) (change : α → β) :
    Shortens (fun text => (reader text).map fun (result, rest) => (change result, rest)) := by
  refine ⟨fun {text result rest} read => ?_⟩
  obtain ⟨_, readFound, ⟨⟩⟩ := Option.map_eq_some_iff.mp read
  exact shortens.shorter readFound

theorem shorter_of_behind? {word : String} (some : word.toList ≠ []) {text rest : List Char}
    (found : behind? word text = .some rest) : rest.length < text.length := by
  rw [behind?, List.isPrefixOf?_eq_some_iff_append_eq] at found
  have positive := List.length_pos_iff.mpr some
  rw [← found, List.length_append]
  omega

end Text

namespace Sdl

open Text

theorem shortens_afterSkip {α : Type} {reader : Reader α} (shortens : Shortens reader) :
    Shortens fun text => reader (skip text) :=
  ⟨fun read => Nat.lt_of_lt_of_le (shortens.shorter read) (skip_suffix _).length_le⟩

theorem shortens_keyword {word : String} (some : word.toList ≠ []) : Shortens (keyword word) := by
  refine ⟨fun {text result rest} read => ?_⟩
  obtain ⟨_, found, ⟨⟩⟩ := Option.map_eq_some_iff.mp read
  exact Nat.lt_of_lt_of_le (shorter_of_behind? some found) (skip_suffix text).length_le

theorem shortens_nameHere : Shortens nameHere := by
  refine ⟨fun {text result rest} read => ?_⟩
  cases text with
  | nil => cases read
  | cons c behind =>
      simp only [nameHere] at read
      split at read
      · obtain ⟨⟩ := read
        exact Nat.lt_succ_of_le (List.dropWhile_suffix _).length_le
      · cases read

theorem shortens_enumName : Shortens enumName := by
  refine ⟨fun {text result rest} read => ?_⟩
  unfold enumName at read
  dsimp only at read
  split at read
  · cases read
  · exact (shortens_afterSkip shortens_nameHere).shorter read

theorem shortens_stringHere : Shortens stringHere := by
  refine ⟨fun {text result rest} read => ?_⟩
  unfold stringHere at read
  split at read
  · split at read
    · rename_i found
      obtain ⟨⟩ := read
      have shorter := (consumes_blockRest.suffix found).length_le
      simp only [List.length_cons]
      omega
    · obtain ⟨⟩ := read
      simp only [List.length_cons]
      omega
  · obtain ⟨_, found, ⟨⟩⟩ := Option.map_eq_some_iff.mp read
    exact Nat.lt_succ_of_le (consumes_quotedRest.suffix found).length_le
  · cases read

theorem shortens_wholeDigits : Shortens wholeDigits := by
  refine ⟨fun {text digits rest} read => ?_⟩
  obtain ⟨whole, rfl, _⟩ := wholeDigits_eq_some.mp read
  obtain ⟨c, more, rfl, _⟩ := whole.exists_cons
  simp only [List.cons_append, List.length_cons, List.length_append]
  omega

theorem shortens_numberHere : Shortens numberHere := by
  refine ⟨fun {text result rest} read => ?_⟩
  obtain ⟨⟨_, behind⟩, readWhole, read⟩ := Option.bind_eq_some_iff.mp read
  dsimp only at read
  split at read
  · cases read
  · obtain ⟨⟩ := read
    have whole : behind.length < text.length := by
      refine Nat.lt_of_lt_of_le (shortens_wholeDigits.shorter readWhole) ?_
      split
      · exact Nat.le_succ _
      · exact Nat.le.refl
    have exponent := consumes_exponentHere.optional (optional fractionHere behind).2
    have rest := exponent.trans (consumes_fractionHere.optional behind)
    exact Nat.lt_of_le_of_lt rest.length_le whole

theorem shortens_wordValue : Shortens wordValue? := by
  refine ⟨fun {text value rest} read => ?_⟩
  unfold wordValue? at read
  split at read
  · rename_i found
    obtain ⟨⟩ := read
    exact shorter_of_behind? (by decide) found
  · split at read
    · rename_i found
      obtain ⟨⟩ := read
      exact shorter_of_behind? (by decide) found
    · obtain ⟨_, found, ⟨⟩⟩ := Option.map_eq_some_iff.mp read
      exact shorter_of_behind? (by decide) found

theorem shortens_leaf : Shortens leaf :=
  ((shortens_afterSkip shortens_numberHere).map NumberLiteral.value).orElse
    (((shortens_afterSkip shortens_stringHere).map .string).orElse
      ((shortens_afterSkip shortens_wordValue).orElse (shortens_enumName.map .enum)))

end Sdl

end GraphqlReference
