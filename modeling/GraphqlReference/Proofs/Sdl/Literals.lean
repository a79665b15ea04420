import GraphqlReference.Proofs.Schema.Lookup
import GraphqlReference.Proofs.Sdl.Tokens
import GraphqlReference.Proofs.Text.Repeating
import GraphqlReference.Proofs.Value.Writing
import GraphqlReference.Sdl.Resolution

namespace GraphqlReference.Sdl

open Text

/-- The words that stand for values of their own. -/
def reservedWords : List String :=
  ["true", "false", "null"]

/-- A value without floats that is named as the schema language demands. The names of its enum
values are those that a test admits. -/
inductive IsLiteral (admits : String → Prop) : Value → Prop
  | boolean (value : Bool) : IsLiteral admits (.boolean value)
  | int (value : Int64) : IsLiteral admits (.int value)
  | string (text : String) : IsLiteral admits (.string text)
  | enum {name : String} : IsName name → admits name → IsLiteral admits (.enum name)
  | null : IsLiteral admits .null
  | list {items : List Value} : (∀ item ∈ items, IsLiteral admits item) →
      IsLiteral admits (.list items)
  | object {fields : List (String × Value)} : (fields.map Prod.fst).Nodup →
      (∀ field ∈ fields, IsName field.1) → (∀ field ∈ fields, IsLiteral admits field.2) →
      IsLiteral admits (.object fields)

/-- No reserved word begins a name. -/
def IsFree (name : String) : Prop :=
  ∀ word ∈ reservedWords, ¬ word.toList <+: name.toList

instance (name : String) : Decidable (IsFree name) :=
  inferInstanceAs (Decidable (∀ word ∈ reservedWords, ¬ word.toList <+: name.toList))

section

variable {rest : List Char}

theorem not_prefix_append {word name : List Char} (parts : ∀ c ∈ word, isNamePart c = true)
    (free : ¬ word <+: name) (ends : ∀ c ∈ rest.head?, isNamePart c = false) :
    ¬ word <+: name ++ rest := by
  intro begins
  rcases List.prefix_or_prefix_of_prefix begins (List.prefix_append name rest) with
    inside | ⟨more, longer⟩
  · exact free inside
  · subst longer
    cases more with
    | nil => exact free (by simp)
    | cons c more =>
        obtain ⟨behind, same⟩ := (List.prefix_append_right_inj name).mp begins
        have part := parts c (by simp)
        have next := ends c (by rw [← same]; rfl)
        exact Bool.noConfusion (part.symm.trans next)

theorem wordValue_free {name : String} (free : IsFree name)
    (ends : ∀ c ∈ rest.head?, isNamePart c = false) : wordValue? (name.toList ++ rest) = none := by
  have parts : ∀ word ∈ reservedWords, word.toList.all isNamePart = true := by decide
  have none : ∀ word ∈ reservedWords, behind? word (name.toList ++ rest) = none := by
    intro word member
    refine Option.eq_none_iff_forall_ne_some.mpr fun behind found => ?_
    exact not_prefix_append (List.all_eq_true.mp (parts word member)) (free word member) ends
      ⟨behind, List.isPrefixOf?_eq_some_iff_append_eq.mp found⟩
  obtain ⟨noTrue, noFalse, noNull, _⟩ : _ ∧ _ ∧ _ ∧ _ := by
    simpa only [reservedWords, List.forall_mem_cons] using none
  simp only [wordValue?, noTrue, noFalse, noNull, Option.map_none]

theorem numberHere_nameStart {c : Char} (start : isNameStart c = true) (behind : List Char) :
    numberHere (c :: behind) = none := by
  have minus : c ≠ '-' := ne_of_isNameStart start (by decide)
  have zero : c ≠ '0' := ne_of_isNameStart start (by decide)
  have whole : wholeDigits (c :: behind) = none := by
    rw [wholeDigits]
    · simp [isDigit_of_isNameStart start]
    · exact zero
  unfold numberHere
  split
  rename_i negative unsigned sign
  split at sign
  · rename_i same
    exact absurd (List.cons.inj same).1 minus
  · obtain ⟨⟩ := sign
    simp [whole]

theorem stringHere_nameStart {c : Char} (start : isNameStart c = true) (behind : List Char) :
    stringHere (c :: behind) = none := by
  have quote : c ≠ '"' := ne_of_isNameStart start (by decide)
  unfold stringHere
  split
  · rename_i same
    exact absurd (List.cons.inj same).1 quote
  · rename_i same
    exact absurd (List.cons.inj same).1 quote
  · rfl

theorem leaf_boolean (value : Bool) (rest : List Char) :
    leaf ((Value.boolean value).write ++ rest) = some (.boolean value, rest) := by
  cases value <;> rfl

theorem leaf_null (rest : List Char) : leaf (Value.null.write ++ rest) = some (.null, rest) :=
  rfl

theorem leaf_int (value : Int64) (ends : EndsToken rest) :
    leaf ((Value.int value).write ++ rest) = some (.int value, rest) := by
  rw [leaf, Value.write, number_writeInt value ends]
  rfl

theorem leaf_string (text : String) (ends : EndsToken rest) :
    leaf ((Value.string text).write ++ rest) = some (.string text, rest) := by
  have none : number (Value.quote text.toList ++ rest) = none := rfl
  rw [leaf, Value.write, none, string_quote text ends]
  rfl

theorem leaf_enum {name : String} (named : IsName name) (free : IsFree name)
    (ends : EndsToken rest) : leaf ((Value.enum name).write ++ rest) = some (.enum name, rest) := by
  have read := nameHere_append named ends.part
  have word := wordValue_free free ends.part
  have skipped := skip_name named rest
  obtain ⟨c, part, split, start, _⟩ := named
  have noNumber : number (name.toList ++ rest) = none := by
    rw [number, skipped, split]
    exact congrArg _ (numberHere_nameStart start _)
  have noString : string (name.toList ++ rest) = none := by
    rw [string, skipped, split]
    exact stringHere_nameStart start _
  rw [leaf, Value.write, noNumber, noString, enumName, skipped, word, read]
  rfl

theorem valueWithin_of_leaf {text : List Char} {found : Value × List Char}
    (read : leaf text = some found) (depth : Nat) : valueWithin depth text = some found := by
  cases depth with
  | zero => exact read
  | succ depth => rw [valueWithin, read]

theorem namedValue_writeField {reader : Reader Value} {field : String × Value}
    (named : IsName field.1) (read : reader (field.2.write ++ rest) = some (field.2, rest))
    (ignored : ∀ text, reader (' ' :: text) = reader text) :
    namedValue reader (Value.writeField field ++ rest) = some (field, rest) := by
  have split : Value.writeField field ++ rest =
      field.1.toList ++ ':' :: ' ' :: (field.2.write ++ rest) := by
    simp [Value.writeField]
  have colon : keyword ":" (':' :: ' ' :: (field.2.write ++ rest)) =
      some ((), ' ' :: (field.2.write ++ rest)) := rfl
  have name : Sdl.name (field.1.toList ++ ':' :: ' ' :: (field.2.write ++ rest)) =
      some (field.1, ':' :: ' ' :: (field.2.write ++ rest)) :=
    name_append named (by simp; decide)
  rw [namedValue, split]
  simp [name, colon, ignored, read]

theorem valueWithin_ignored (depth : Nat) (text : List Char) :
    valueWithin depth (',' :: ' ' :: text) = valueWithin depth text ∧
      valueWithin depth (' ' :: text) = valueWithin depth text := by
  cases depth <;> exact ⟨rfl, rfl⟩

theorem write_ne_nil {value : Value} {admits : String → Prop} (literal : IsLiteral admits value) :
    value.write ≠ [] := by
  cases literal with
  | boolean value => cases value <;> decide
  | int value =>
      rw [Value.write, writeInt_eq]
      exact IntegerLiteral.text_ne_nil
  | enum named _ =>
      obtain ⟨c, part, split, _⟩ := named
      rw [Value.write, split]
      exact List.cons_ne_nil c part
  | null => decide
  | string | list | object => exact List.cons_ne_nil _ _

theorem endsToken_comma (rest : List Char) : EndsToken (',' :: rest) :=
  endsToken_cons (by decide) (by decide) (by decide) rest

theorem valueWithin_list {depth : Nat} {items : List Value}
    (shown : ∀ item ∈ items, item.write ≠ [])
    (read : ∀ item ∈ items, ∀ rest, EndsToken rest →
      valueWithin depth (item.write ++ rest) = some (item, rest)) (rest : List Char) :
    valueWithin (depth + 1) ((Value.list items).write ++ rest) = some (.list items, rest) := by
  have closes : EndsToken (']' :: rest) := endsToken_cons (by decide) (by decide) (by decide) rest
  have stops : valueWithin depth (']' :: rest) = none := by
    cases depth <;> rfl
  have repeats := repeats_separated EndsToken shown read
    (fun rest => (valueWithin_ignored depth rest).1) endsToken_comma closes stops
  have bracket : ∀ text, leaf ('[' :: text) = none ∧ skip ('[' :: text) = '[' :: text :=
    fun _ => ⟨rfl, rfl⟩
  have closed : keyword "]" (']' :: rest) = some ((), rest) := rfl
  have split : (Value.list items).write ++ rest =
      '[' :: ([',', ' '].intercalate (items.map Value.write) ++ ']' :: rest) := by
    simp [Value.write, Value.writeItems_eq]
  rw [split, valueWithin, (bracket _).1, (bracket _).2]
  simp only [repeats.many, closed]
  rfl

theorem valueWithin_object {depth : Nat} {fields : List (String × Value)}
    (named : ∀ field ∈ fields, IsName field.1)
    (read : ∀ field ∈ fields, ∀ rest, EndsToken rest →
      valueWithin depth (field.2.write ++ rest) = some (field.2, rest)) (rest : List Char) :
    valueWithin (depth + 1) ((Value.object fields).write ++ rest) =
      some (.object fields, rest) := by
  have closes : EndsToken ('\x7d' :: rest) :=
    endsToken_cons (by decide) (by decide) (by decide) rest
  have stops : namedValue (valueWithin depth) ('\x7d' :: rest) = none := rfl
  have shown : ∀ field ∈ fields, Value.writeField field ≠ [] := by
    simp [Value.writeField]
  have readField : ∀ field ∈ fields, ∀ rest, EndsToken rest →
      namedValue (valueWithin depth) (Value.writeField field ++ rest) = some (field, rest) :=
    fun field member rest ends => namedValue_writeField (named field member)
      (read field member rest ends) fun text => (valueWithin_ignored depth text).2
  have repeats := repeats_separated EndsToken shown readField (fun _ => rfl) endsToken_comma
    closes stops
  have brace : ∀ text, leaf ('\x7b' :: text) = none ∧ skip ('\x7b' :: text) = '\x7b' :: text :=
    fun _ => ⟨rfl, rfl⟩
  have closed : keyword "\x7d" ('\x7d' :: rest) = some ((), rest) := rfl
  have split : (Value.object fields).write ++ rest =
      '\x7b' :: ([',', ' '].intercalate (fields.map Value.writeField) ++ '\x7d' :: rest) := by
    simp [Value.write, Value.writeFields_eq]
  rw [split, valueWithin, (brace _).1, (brace _).2]
  simp only [repeats.many, closed]
  rfl

/-- A value is read from its literal. The brackets of a literal are fewer than its characters. -/
theorem valueWithin_write {value : Value} (literal : IsLiteral IsFree value) {depth : Nat}
    (deep : value.write.length ≤ depth) (ends : EndsToken rest) :
    valueWithin depth (value.write ++ rest) = some (value, rest) := by
  induction literal generalizing depth rest with
  | boolean value => exact valueWithin_of_leaf (leaf_boolean value rest) depth
  | int value => exact valueWithin_of_leaf (leaf_int value ends) depth
  | string text => exact valueWithin_of_leaf (leaf_string text ends) depth
  | enum named free => exact valueWithin_of_leaf (leaf_enum named free ends) depth
  | null => exact valueWithin_of_leaf (leaf_null rest) depth
  | list literals ih =>
      cases depth with
      | zero => simp [Value.write] at deep
      | succ depth =>
          refine valueWithin_list (fun item member => write_ne_nil (literals item member))
            (fun item member rest ends => ih item member ?_ ends) rest
          have shorter := Value.length_write_lt_list member
          omega
  | object distinct named literals ih =>
      cases depth with
      | zero => simp [Value.write] at deep
      | succ depth =>
          refine valueWithin_object named (fun field member rest ends => ih field member ?_ ends)
            rest
          have shorter := Value.length_write_lt_object member
          omega

theorem defaultValue_write {value : Value} (literal : IsLiteral IsFree value)
    (ends : EndsToken rest) :
    defaultValue ('=' :: ' ' :: (value.write ++ rest)) = some (value, rest) := by
  have equals : keyword "=" ('=' :: ' ' :: (value.write ++ rest)) =
      some ((), ' ' :: (value.write ++ rest)) := rfl
  have deep : value.write.length ≤ (' ' :: (value.write ++ rest)).length := by
    simp only [List.length_cons, List.length_append]
    omega
  have read := valueWithin_write literal deep ends
  rw [← (valueWithin_ignored _ _).2] at read
  rw [defaultValue, equals]
  exact read

end

section

variable {α : Type} {entries : List (String × α)}

/-- Fields with distinct names are kept as they are. -/
theorem collectNamed_distinct (distinct : (entries.map Prod.fst).Nodup) :
    collectNamed entries = entries := by
  induction entries using List.reverseRecOn with
  | nil => rfl
  | append_singleton earlier last ih =>
      obtain ⟨name, value⟩ := last
      rw [List.map_append, List.map_singleton, List.nodup_append] at distinct
      obtain ⟨distinct, _, apart⟩ := distinct
      have fresh : name ∉ earlier.map Prod.fst := fun member =>
        apart name member name List.mem_cons_self rfl
      have collected := ih distinct
      unfold collectNamed at collected ⊢
      rw [List.foldl_append, collected]
      exact setNamed_fresh fresh value

end

theorem resolveItems_same {items : List Value}
    (same : ∀ item ∈ items, resolveValue item = some item) : resolveItems items = some items := by
  induction items with
  | nil => rfl
  | cons item rest ih =>
      obtain ⟨here, later⟩ := List.forall_mem_cons.mp same
      rw [resolveItems, here, ih later]
      rfl

theorem resolveFields_same {fields : List (String × Value)}
    (same : ∀ field ∈ fields, resolveValue field.2 = some field.2) :
    resolveFields fields = some fields := by
  induction fields with
  | nil => rfl
  | cons field rest ih =>
      obtain ⟨name, value⟩ := field
      obtain ⟨here, later⟩ := List.forall_mem_cons.mp same
      have here : resolveValue value = some value := here
      rw [resolveFields, here, ih later]
      rfl

theorem resolveValue_literal {value : Value} {admits : String → Prop}
    (literal : IsLiteral admits value) : resolveValue value = some value := by
  induction literal with
  | boolean | int | string | enum | null => rw [resolveValue] <;> simp
  | list _ ih => rw [resolveValue, resolveItems_same ih, Option.map_some]
  | object distinct _ _ ih =>
      rw [resolveValue, resolveFields_same ih, Option.map_some, collectNamed_distinct distinct]

end GraphqlReference.Sdl
