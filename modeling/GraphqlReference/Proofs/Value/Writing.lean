import GraphqlReference.Value.Literal

namespace GraphqlReference.Value

/-- The text of a field in the literal of an object. -/
def writeField (field : String × Value) : List Char :=
  field.1.toList ++ ':' :: ' ' :: field.2.write

theorem writeItems_eq (items : List Value) :
    writeItems items = [',', ' '].intercalate (items.map write) := by
  induction items with
  | nil => rfl
  | cons item rest ih =>
      cases rest with
      | nil => exact List.intercalate_singleton.symm
      | cons next rest =>
          have split : writeItems (item :: next :: rest) =
              item.write ++ [',', ' '] ++ writeItems (next :: rest) := by
            simp [writeItems]
          rw [split, ih]
          exact List.intercalate_cons_cons.symm

theorem writeFields_eq (fields : List (String × Value)) :
    writeFields fields = [',', ' '].intercalate (fields.map writeField) := by
  induction fields with
  | nil => rfl
  | cons field rest ih =>
      obtain ⟨name, value⟩ := field
      cases rest with
      | nil => exact List.intercalate_singleton.symm
      | cons next rest =>
          have split : writeFields ((name, value) :: next :: rest) =
              writeField (name, value) ++ [',', ' '] ++ writeFields (next :: rest) := by
            simp [writeField, writeFields]
          rw [split, ih]
          exact List.intercalate_cons_cons.symm

theorem length_le_intercalate {separator part : List Char} {parts : List (List Char)}
    (member : part ∈ parts) : part.length ≤ (separator.intercalate parts).length := by
  induction parts with
  | nil => exact absurd member List.not_mem_nil
  | cons first rest ih =>
      cases rest with
      | nil => simp [List.mem_singleton.mp member]
      | cons next rest =>
          rw [List.intercalate_cons_cons, List.length_append, List.length_append]
          rcases List.mem_cons.mp member with rfl | later
          · omega
          · have shorter := ih later
            omega

/-- The literals in a list are shorter than the literal of the list. -/
theorem length_write_lt_list {items : List Value} {item : Value} (member : item ∈ items) :
    item.write.length < (Value.list items).write.length := by
  have shorter : item.write.length ≤ ([',', ' '].intercalate (items.map write)).length :=
    length_le_intercalate (List.mem_map_of_mem member)
  simp only [write, writeItems_eq, List.length_append, List.length_cons]
  omega

theorem length_write_lt_object {fields : List (String × Value)} {field : String × Value}
    (member : field ∈ fields) : field.2.write.length < (Value.object fields).write.length := by
  have shorter : (writeField field).length ≤
      ([',', ' '].intercalate (fields.map writeField)).length :=
    length_le_intercalate (List.mem_map_of_mem member)
  simp only [writeField, List.length_append, List.length_cons] at shorter
  simp only [write, writeFields_eq, List.length_append, List.length_cons]
  omega

mutual

/-- The literal of a value with one text between neighbouring parts of a list or object, and another
one between a name and its value. -/
def writeWith (comma colon : List Char) : Value → List Char
  | .list items => '[' :: comma.intercalate (itemsWith comma colon items) ++ [']']
  | .object fields => '{' :: comma.intercalate (fieldsWith comma colon fields) ++ ['}']
  | leaf => leaf.write

def itemsWith (comma colon : List Char) : List Value → List (List Char)
  | [] => []
  | item :: rest => writeWith comma colon item :: itemsWith comma colon rest

def fieldsWith (comma colon : List Char) : List (String × Value) → List (List Char)
  | [] => []
  | (name, value) :: rest =>
    (name.toList ++ colon ++ writeWith comma colon value) :: fieldsWith comma colon rest

end

mutual

/-- The literal of a value is the one with spaces behind its commas and colons. -/
theorem writeWith_spaced (value : Value) : value.writeWith [',', ' '] [':', ' '] = value.write := by
  cases value with
  | boolean | int | float | string | enum | null => rfl
  | list items => rw [writeWith, write, itemsWith_spaced, writeItems_eq]
  | object fields => rw [writeWith, write, fieldsWith_spaced, writeFields_eq]

theorem itemsWith_spaced (items : List Value) :
    itemsWith [',', ' '] [':', ' '] items = items.map write := by
  cases items with
  | nil => rfl
  | cons item rest => rw [itemsWith, writeWith_spaced, itemsWith_spaced, List.map_cons]

theorem fieldsWith_spaced (fields : List (String × Value)) :
    fieldsWith [',', ' '] [':', ' '] fields = fields.map writeField := by
  cases fields with
  | nil => rfl
  | cons field rest =>
      obtain ⟨name, value⟩ := field
      simp [fieldsWith, writeField, writeWith_spaced, fieldsWith_spaced]

end

end GraphqlReference.Value
