import Mathlib.Data.List.Basic
import GraphqlReference.Text.Reader

namespace GraphqlReference.Text

variable {α : Type}

/-- A reader gives these results one after the other, each from a part of the text, and nothing from
what remains. -/
inductive Repeats (reader : Reader α) : List Char → List α → List Char → Prop
  | done {text : List Char} : reader text = none → Repeats reader text [] text
  | more {text behind rest : List Char} {first : α} {results : List α} :
      reader text = some (first, behind) → behind.length < text.length →
      Repeats reader behind results rest → Repeats reader text (first :: results) rest

variable {reader : Reader α} {text rest : List Char} {results : List α}

theorem Repeats.manyWithin (repeats : Repeats reader text results rest) {fuel : Nat}
    (enough : text.length ≤ fuel) : manyWithin reader fuel text = (results, rest) := by
  induction repeats generalizing fuel with
  | done none =>
      cases fuel with
      | zero => rfl
      | succ fuel => rw [Text.manyWithin, none]
  | more read shorter _ ih =>
      cases fuel with
      | zero => omega
      | succ fuel => simp only [Text.manyWithin, read, ih (show _ ≤ fuel by omega)]

theorem Repeats.many (repeats : Repeats reader text results rest) :
    many reader text = (results, rest) :=
  repeats.manyWithin Nat.le.refl

theorem some1_of_many {behind : List Char} {first : α} (read : reader text = some (first, behind))
    (repeated : Text.many reader behind = (results, rest)) :
    some1 reader text = some (first :: results, rest) := by
  simp only [some1, read, repeated, Option.bind_eq_bind, Option.bind_some]

theorem Repeats.some1 (repeats : Repeats reader text results rest) (some : results ≠ []) :
    some1 reader text = .some (results, rest) := by
  cases repeats with
  | done => exact absurd rfl some
  | more read _ behind => exact some1_of_many read behind.many

theorem manyWithin_of_some1 (read : some1 reader text = some (results, rest)) :
    results ≠ [] ∧ ∃ fuel, Text.manyWithin reader fuel text = (results, rest) := by
  obtain ⟨⟨first, behind⟩, readFirst, ⟨⟩⟩ := Option.bind_eq_some_iff.mp read
  refine ⟨List.cons_ne_nil _ _, behind.length + 1, ?_⟩
  rw [Text.manyWithin, readFirst]

/-- A reader to which a text means the same with more in front of it. -/
theorem Repeats.lengthen {longer : List Char} (repeats : Repeats reader text results rest)
    (some : results ≠ []) (same : reader longer = reader text)
    (length : text.length ≤ longer.length) : Repeats reader longer results rest := by
  cases repeats with
  | done => exact absurd rfl some
  | more read shorter behind => exact .more (same.trans read) (by omega) behind

/-- A reader that reads each part of a text reads all of them, if commas mean nothing to it. -/
theorem repeats_separated {write : α → List Char} {items : List α} {closing : List Char}
    (ends : List Char → Prop) (shown : ∀ item ∈ items, write item ≠ [])
    (read : ∀ item ∈ items, ∀ rest, ends rest → reader (write item ++ rest) = some (item, rest))
    (ignored : ∀ rest, reader (',' :: ' ' :: rest) = reader rest)
    (comma : ∀ rest, ends (',' :: rest)) (closes : ends closing) (stops : reader closing = none) :
    Repeats reader ([',', ' '].intercalate (items.map write) ++ closing) items closing := by
  induction items with
  | nil => exact .done stops
  | cons item rest ih =>
      obtain ⟨shownHere, shownLater⟩ := List.forall_mem_cons.mp shown
      obtain ⟨readHere, readLater⟩ := List.forall_mem_cons.mp read
      have later := ih shownLater readLater
      have positive := List.length_pos_iff.mpr shownHere
      cases rest with
      | nil =>
          rw [List.map_singleton, List.intercalate_singleton]
          exact .more (readHere closing closes) (by rw [List.length_append]; omega) (.done stops)
      | cons next rest =>
          have further := later.lengthen (List.cons_ne_nil next rest) (ignored _)
            (by simp only [List.length_cons]; omega)
          have split : [',', ' '].intercalate ((item :: next :: rest).map write) ++ closing =
              write item ++ ',' :: ' ' ::
                ([',', ' '].intercalate ((next :: rest).map write) ++ closing) := by
            simp [List.intercalate_cons_cons]
          rw [split]
          refine .more (readHere _ (comma _)) ?_ further
          rw [List.length_append]
          omega

end GraphqlReference.Text
