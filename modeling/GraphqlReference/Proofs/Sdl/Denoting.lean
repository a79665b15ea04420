import GraphqlReference.Proofs.Sdl.Literals
import GraphqlReference.Proofs.Sdl.Progress
import GraphqlReference.Proofs.Sdl.Writable

namespace GraphqlReference.Sdl

/-!
The values that texts denote, told by the form of the text: an integer in range stands for itself,
and brackets hold what the texts between them denote. This is what reading and resolving give.
-/

open Text

mutual

/-- A text begins with a literal of this value, whose numbers are finite, and goes on behind it. -/
inductive Denotes : List Char → Value → List Char → Prop
  | integer {text rest : List Char} {literal : IntegerLiteral} :
      literal.StandsAt text rest → literal.IsExact →
      Denotes text (.int (Int64.ofInt literal.value)) rest
  | token {text rest : List Char} {value : Value} :
      leaf text = some (value, rest) → (∀ number, value ≠ .int number) → value.IsFinite →
      Denotes text value rest
  | list {text inside behind rest : List Char} {items : List Value} :
      keyword "[" text = some ((), inside) → DenotesItems inside items behind →
      keyword "]" behind = some ((), rest) → Denotes text (.list items) rest
  | object {text inside behind rest : List Char} {fields : List (String × Value)} :
      keyword "\x7b" text = some ((), inside) → DenotesFields inside fields behind →
      keyword "\x7d" behind = some ((), rest) → Denotes text (.object (collectNamed fields)) rest

/-- A text begins with literals of these values in a row. -/
inductive DenotesItems : List Char → List Value → List Char → Prop
  | nil {text : List Char} : DenotesItems text [] text
  | cons {text behind rest : List Char} {item : Value} {items : List Value} :
      Denotes text item behind → DenotesItems behind items rest →
      DenotesItems text (item :: items) rest

/-- A text begins with names in a row, each with a colon and the literal of its value behind it. -/
inductive DenotesFields : List Char → List (String × Value) → List Char → Prop
  | nil {text : List Char} : DenotesFields text [] text
  | cons {text atColon atValue behind rest : List Char} {named : String} {value : Value}
      {fields : List (String × Value)} :
      name text = some (named, atColon) → keyword ":" atColon = some ((), atValue) →
      Denotes atValue value behind → DenotesFields behind fields rest →
      DenotesFields text ((named, value) :: fields) rest

end

section

variable {text rest : List Char} {literal : IntegerLiteral}

theorem leaf_integer (stands : literal.StandsAt text rest) :
    leaf text = some (literal.number.value, rest) := by
  rw [leaf, stands.number]
  rfl

theorem number_eq_int {value : Int64} (read : number text = some (.int value, rest)) :
    ∃ literal : IntegerLiteral, literal.StandsAt text rest ∧ literal.IsExact ∧
      value = Int64.ofInt literal.value := by
  obtain ⟨⟨⟨negative, digits, fraction, exponent⟩, _⟩, found, same⟩ :=
    Option.map_eq_some_iff.mp read
  obtain ⟨integer, rfl⟩ := Prod.mk.inj same
  have parts : fraction = none ∧ exponent = none := by
    unfold NumberLiteral.value at integer
    dsimp only at integer
    split at integer
    · exact ⟨rfl, rfl⟩
    · cases integer
  obtain ⟨rfl, rfl⟩ := parts
  obtain ⟨whole, split, ends⟩ := numberHere_integer.mp found
  let literal : IntegerLiteral := ⟨negative, digits, whole⟩
  have value_eq : literal.number.value = .int value := integer
  have exact : literal.IsExact := by
    refine Classical.byContradiction fun inexact => ?_
    obtain ⟨number, float⟩ := IntegerLiteral.value_number_of_not_exact inexact
    rw [value_eq] at float
    cases float
  refine ⟨literal, ⟨?_, ends⟩, exact, ?_⟩
  · rw [split, IntegerLiteral.text, List.append_assoc]
  · rw [IntegerLiteral.value_number exact] at value_eq
    exact (Value.int.inj value_eq).symm

/-- A value that has no parts and is no number. -/
inductive IsUnit : Value → Prop
  | boolean (value : Bool) : IsUnit (.boolean value)
  | string (text : String) : IsUnit (.string text)
  | enum (name : String) : IsUnit (.enum name)
  | null : IsUnit .null

theorem isUnit_wordValue {value : Value} (read : wordValue? text = some (value, rest)) :
    IsUnit value := by
  unfold wordValue? at read
  split at read
  · obtain ⟨⟩ := read
    exact .boolean true
  · split at read
    · obtain ⟨⟩ := read
      exact .boolean false
    · obtain ⟨_, _, ⟨⟩⟩ := Option.map_eq_some_iff.mp read
      exact .null

theorem leaf_eq_some {value : Value} (read : leaf text = some (value, rest)) :
    number text = some (value, rest) ∨ IsUnit value := by
  simp only [leaf, Option.orElse_eq_orElse, Option.orElse_eq_or, Option.or_eq_some_iff] at read
  rcases read with number | ⟨_, content | ⟨_, word | ⟨_, named⟩⟩⟩
  · exact .inl number
  · obtain ⟨_, _, ⟨⟩⟩ := Option.map_eq_some_iff.mp content
    exact .inr (.string _)
  · exact .inr (isUnit_wordValue word)
  · obtain ⟨_, _, ⟨⟩⟩ := Option.map_eq_some_iff.mp named
    exact .inr (.enum _)

/-- An integer is read from nothing but its literal. -/
theorem leaf_eq_int {value : Int64} (read : leaf text = some (.int value, rest)) :
    ∃ literal : IntegerLiteral, literal.StandsAt text rest ∧ literal.IsExact ∧
      value = Int64.ofInt literal.value :=
  (leaf_eq_some read).elim number_eq_int nofun

/-- A token stands for the value that it is read as, if it stands for any. -/
theorem resolveValue_leaf {value resolved : Value} (read : leaf text = some (value, rest))
    (found : resolveValue value = some resolved) : resolved = value := by
  rcases leaf_eq_some read with number | unit
  · obtain ⟨⟨literal, _⟩, _, same⟩ := Option.map_eq_some_iff.mp number
    obtain ⟨rfl, _⟩ := Prod.mk.inj same
    rcases literal.value_int_or_float with ⟨integer, same⟩ | ⟨float, same⟩
    · rw [same] at found ⊢
      exact (Option.some.inj found).symm
    · rw [same, resolveValue] at found
      rw [same]
      split at found
      · exact (Option.some.inj found).symm
      · cases found
  · cases unit <;> exact (Option.some.inj found).symm

theorem keyword_bracket {word : String} {c : Char} (single : word.toList = [c]) :
    keyword word text = some ((), rest) ↔ skip text = c :: rest := by
  rw [keyword, Option.map_eq_some_iff]
  constructor
  · rintro ⟨_, found, ⟨⟩⟩
    rw [behind?, single, List.isPrefixOf?_eq_some_iff_append_eq] at found
    exact found.symm
  · intro split
    refine ⟨rest, ?_, rfl⟩
    rw [behind?, single, List.isPrefixOf?_eq_some_iff_append_eq]
    exact split.symm

theorem leaf_bracket {c : Char} (bracket : c ∈ ['[', ']', '\x7b', '\x7d'])
    (split : skip text = c :: rest) : leaf text = none := by
  simp only [leaf, number, string, enumName, split]
  simp only [List.mem_cons, List.not_mem_nil, or_false] at bracket
  rcases bracket with rfl | rfl | rfl | rfl <;> rfl

end

section

variable {reader : Reader Value} {fuel : Nat}
  (here : ∀ {text written rest value}, reader text = some (written, rest) →
    resolveValue written = some value → Denotes text value rest)

include here

theorem denotesItems_of_manyWithin {text rest : List Char} {written items : List Value}
    (read : manyWithin reader fuel text = (written, rest))
    (found : resolveItems written = some items) : DenotesItems text items rest := by
  induction fuel generalizing text written items with
  | zero =>
      obtain ⟨⟩ := read
      obtain ⟨⟩ := found
      exact .nil
  | succ fuel ih =>
      unfold manyWithin at read
      split at read
      · rename_i first behind readFirst
        obtain ⟨rfl, rfl⟩ := Prod.mk.inj read
        obtain ⟨item, foundItem, found⟩ := Option.bind_eq_some_iff.mp found
        obtain ⟨more, foundMore, ⟨⟩⟩ := Option.bind_eq_some_iff.mp found
        exact .cons (here readFirst foundItem) (ih rfl foundMore)
      · obtain ⟨⟩ := read
        obtain ⟨⟩ := found
        exact .nil

theorem denotesFields_of_manyWithin {text rest : List Char}
    {written fields : List (String × Value)}
    (read : manyWithin (namedValue reader) fuel text = (written, rest))
    (found : resolveFields written = some fields) : DenotesFields text fields rest := by
  induction fuel generalizing text written fields with
  | zero =>
      obtain ⟨⟩ := read
      obtain ⟨⟩ := found
      exact .nil
  | succ fuel ih =>
      unfold manyWithin at read
      split at read
      · rename_i first behind readFirst
        obtain ⟨rfl, rfl⟩ := Prod.mk.inj read
        obtain ⟨⟨named, atColon⟩, readName, readFirst⟩ := Option.bind_eq_some_iff.mp readFirst
        obtain ⟨⟨_, atValue⟩, colon, readFirst⟩ := Option.bind_eq_some_iff.mp readFirst
        obtain ⟨⟨value, _⟩, readValue, ⟨⟩⟩ := Option.bind_eq_some_iff.mp readFirst
        obtain ⟨value, foundValue, found⟩ := Option.bind_eq_some_iff.mp found
        obtain ⟨more, foundMore, ⟨⟩⟩ := Option.bind_eq_some_iff.mp found
        exact .cons readName colon (here readValue foundValue) (ih rfl foundMore)
      · obtain ⟨⟩ := read
        obtain ⟨⟩ := found
        exact .nil

end

theorem denotes_leaf {text rest : List Char} {written value : Value}
    (read : leaf text = some (written, rest)) (found : resolveValue written = some value) :
    Denotes text value rest := by
  obtain rfl := resolveValue_leaf read found
  by_cases integer : ∃ number, value = .int number
  · obtain ⟨number, rfl⟩ := integer
    obtain ⟨literal, stands, exact, rfl⟩ := leaf_eq_int read
    exact .integer stands exact
  · exact .token read (not_exists.mp integer) (isFinite_resolveValue found)

theorem denotes_of_valueWithin {depth : Nat} {text rest : List Char} {written value : Value}
    (read : valueWithin depth text = some (written, rest))
    (found : resolveValue written = some value) : Denotes text value rest := by
  induction depth generalizing text rest written value with
  | zero => exact denotes_leaf read found
  | succ depth ih =>
      unfold valueWithin at read
      split at read
      · rename_i readLeaf
        exact denotes_leaf (readLeaf.trans read) found
      · split at read
        · rename_i inside split
          obtain ⟨⟨_, _⟩, closed, ⟨⟩⟩ := Option.bind_eq_some_iff.mp read
          obtain ⟨items, foundItems, ⟨⟩⟩ := Option.map_eq_some_iff.mp found
          exact .list ((keyword_bracket rfl).mpr split)
            (denotesItems_of_manyWithin ih rfl foundItems) closed
        · rename_i inside split
          obtain ⟨⟨_, _⟩, closed, ⟨⟩⟩ := Option.bind_eq_some_iff.mp read
          obtain ⟨fields, foundFields, ⟨⟩⟩ := Option.map_eq_some_iff.mp found
          exact .object ((keyword_bracket rfl).mpr split)
            (denotesFields_of_manyWithin ih rfl foundFields) closed
        · cases read

mutual

theorem Denotes.shorter {text rest : List Char} {value : Value} :
    Denotes text value rest → rest.length < text.length
  | .integer stands _ => shortens_leaf.shorter (leaf_integer stands)
  | .token read _ _ => shortens_leaf.shorter read
  | .list opened items closed =>
      have opening := (shortens_keyword (by decide)).shorter opened
      have closing := (shortens_keyword (by decide)).shorter closed
      Nat.lt_trans closing (Nat.lt_of_le_of_lt items.le opening)
  | .object opened fields closed =>
      have opening := (shortens_keyword (by decide)).shorter opened
      have closing := (shortens_keyword (by decide)).shorter closed
      Nat.lt_trans closing (Nat.lt_of_le_of_lt fields.le opening)

theorem DenotesItems.le {text rest : List Char} {items : List Value} :
    DenotesItems text items rest → rest.length ≤ text.length
  | .nil => Nat.le.refl
  | .cons item items => Nat.le_trans items.le (Nat.le_of_lt item.shorter)

theorem DenotesFields.le {text rest : List Char} {fields : List (String × Value)} :
    DenotesFields text fields rest → rest.length ≤ text.length
  | .nil => Nat.le.refl
  | .cons readName colon value fields =>
      have named := (consumes_name.suffix readName).length_le
      have marked := ((consumes_keyword _).suffix colon).length_le
      Nat.le_trans fields.le
        (Nat.le_trans (Nat.le_of_lt value.shorter) (Nat.le_trans marked named))

end

theorem resolveValue_token {value : Value} {text rest : List Char}
    (read : leaf text = some (value, rest)) (finite : value.IsFinite) :
    resolveValue value = some value := by
  rcases leaf_eq_some read with number | unit
  · obtain ⟨⟨literal, _⟩, _, same⟩ := Option.map_eq_some_iff.mp number
    obtain ⟨rfl, _⟩ := Prod.mk.inj same
    rcases literal.value_int_or_float with ⟨integer, same⟩ | ⟨float, same⟩
    · rw [same, resolveValue] <;> simp
    · rw [same] at finite ⊢
      rw [resolveValue, if_pos (finite float List.mem_cons_self)]
  · cases unit <;> rfl

theorem valueWithin_bracket {c : Char} {text rest : List Char} (closing : c = ']' ∨ c = '\x7d')
    (split : skip text = c :: rest) (depth : Nat) : valueWithin depth text = none := by
  have none : leaf text = none := by
    refine leaf_bracket ?_ split
    rcases closing with rfl | rfl <;> decide
  cases depth with
  | zero => exact none
  | succ depth =>
      rw [valueWithin, none, split]
      rcases closing with rfl | rfl <;> rfl

section

variable {reader : Reader Value} {bound : Nat}
  (each : ∀ {text value rest}, text.length ≤ bound → Denotes text value rest →
    ∃ written, reader text = some (written, rest) ∧ resolveValue written = some value)

include each

theorem DenotesItems.repeats {text rest : List Char} {items : List Value}
    (short : text.length ≤ bound) (stops : reader rest = none)
    (denotes : DenotesItems text items rest) :
    ∃ written, Repeats reader text written rest ∧ resolveItems written = some items := by
  induction items generalizing text with
  | nil =>
      obtain ⟨⟩ := denotes
      exact ⟨[], .done stops, rfl⟩
  | cons value values ih =>
      obtain _ | ⟨item, denotes⟩ := denotes
      have shorter := item.shorter
      obtain ⟨first, read, found⟩ := each short item
      obtain ⟨more, repeats, foundMore⟩ := ih (by omega) denotes
      exact ⟨first :: more, .more read shorter repeats, by rw [resolveItems, found, foundMore]; rfl⟩

theorem DenotesFields.repeats {text rest : List Char} {fields : List (String × Value)}
    (short : text.length ≤ bound) (stops : name rest = none)
    (denotes : DenotesFields text fields rest) :
    ∃ written, Repeats (namedValue reader) text written rest ∧
      resolveFields written = some fields := by
  induction fields generalizing text with
  | nil =>
      obtain ⟨⟩ := denotes
      exact ⟨[], .done (by rw [namedValue, stops]; rfl), rfl⟩
  | cons field fields ih =>
      obtain _ | ⟨readName, colon, value, denotes⟩ := denotes
      have named := (consumes_name.suffix readName).length_le
      have marked := ((consumes_keyword _).suffix colon).length_le
      have shorter := value.shorter
      obtain ⟨first, read, found⟩ := each (by omega) value
      obtain ⟨more, repeats, foundMore⟩ := ih (by omega) denotes
      refine ⟨(_, first) :: more, .more ?_ (by omega) repeats,
        by rw [resolveFields, found, foundMore]; rfl⟩
      simp [namedValue, readName, colon, read]

end

/-- A value is read if as many brackets may be open as its text has characters. -/
theorem Denotes.valueWithin {depth : Nat} {text rest : List Char} {value : Value}
    (deep : text.length ≤ depth) (denotes : Denotes text value rest) :
    ∃ written, Sdl.valueWithin depth text = some (written, rest) ∧
      resolveValue written = some value := by
  induction depth generalizing text rest value with
  | zero =>
      have shorter := denotes.shorter
      omega
  | succ depth ih =>
      cases denotes with
      | integer stands exact =>
          have read := leaf_integer stands
          rw [IntegerLiteral.value_number exact] at read
          exact ⟨_, valueWithin_of_leaf read _, resolveValue_token read nofun⟩
      | token read _ finite => exact ⟨_, valueWithin_of_leaf read _, resolveValue_token read finite⟩
      | @list _ inside behind _ items opened denotes closed =>
          have split : skip text = '[' :: inside := (keyword_bracket rfl).mp opened
          have shorter := (shortens_keyword (by decide)).shorter opened
          have stops := valueWithin_bracket (.inl rfl) ((keyword_bracket rfl).mp closed) depth
          obtain ⟨written, repeats, found⟩ := denotes.repeats ih (by omega) stops
          refine ⟨.list written, ?_, by rw [resolveValue, found]; rfl⟩
          rw [Sdl.valueWithin, leaf_bracket (by decide) split, split]
          simp [repeats.many, closed]
      | @object _ inside behind _ fields opened denotes closed =>
          have split : skip text = '\x7b' :: inside := (keyword_bracket rfl).mp opened
          have shorter := (shortens_keyword (by decide)).shorter opened
          have stops : name behind = none :=
            (congrArg nameHere ((keyword_bracket rfl).mp closed)).trans rfl
          obtain ⟨written, repeats, found⟩ := denotes.repeats ih (by omega) stops
          refine ⟨.object written, ?_, by rw [resolveValue, found]; rfl⟩
          rw [Sdl.valueWithin, leaf_bracket (by decide) split, split]
          simp [repeats.many, closed]

/-- A text denotes a value exactly if a value is read from it that stands for this one. -/
theorem denotes_iff {text rest : List Char} {value : Value} :
    Denotes text value rest ↔
      ∃ written, Sdl.value text = some (written, rest) ∧ resolveValue written = some value :=
  ⟨fun denotes => denotes.valueWithin Nat.le.refl,
    fun ⟨_, read, found⟩ => denotes_of_valueWithin read found⟩

/-- Parentheses with the names and values in them, one at least. -/
inductive DenotesArguments (text : List Char) (fields : List (String × Value))
    (rest : List Char) : Prop
  | intro {inside behind : List Char} : keyword "(" text = some ((), inside) →
      DenotesFields inside fields behind → fields ≠ [] → keyword ")" behind = some ((), rest) →
      DenotesArguments text fields rest

theorem resolveFields_ne_nil {written fields : List (String × Value)} (some : written ≠ [])
    (found : resolveFields written = .some fields) : fields ≠ [] := by
  cases written with
  | nil => exact absurd rfl some
  | cons field more =>
      obtain ⟨_, _, found⟩ := Option.bind_eq_some_iff.mp found
      obtain ⟨_, _, ⟨⟩⟩ := Option.bind_eq_some_iff.mp found
      exact List.cons_ne_nil _ _

theorem denotesArguments_iff {text rest : List Char} {fields : List (String × Value)} :
    DenotesArguments text fields rest ↔
      ∃ written, enclosed "(" ")" (namedValue Sdl.value) text = some (written, rest) ∧
        resolveFields written = some fields := by
  constructor
  · rintro ⟨opened, denotes, some, closed⟩
    have stops : name _ = none := (congrArg nameHere ((keyword_bracket rfl).mp closed)).trans rfl
    obtain ⟨written, repeats, found⟩ :=
      denotes.repeats (fun _ denotes => denotes_iff.mp denotes) Nat.le.refl stops
    have someWritten : written ≠ [] := by
      rintro rfl
      exact some (Option.some.inj found).symm
    exact ⟨written, by simp [enclosed, opened, repeats.some1 someWritten, closed], found⟩
  · rintro ⟨written, read, found⟩
    obtain ⟨⟨_, inside⟩, opened, read⟩ := Option.bind_eq_some_iff.mp read
    obtain ⟨⟨_, behind⟩, inner, read⟩ := Option.bind_eq_some_iff.mp read
    obtain ⟨⟨_, _⟩, closed, ⟨⟩⟩ := Option.bind_eq_some_iff.mp read
    obtain ⟨someWritten, fuel, repeated⟩ := manyWithin_of_some1 inner
    have denotes := denotesFields_of_manyWithin
      (fun read found => denotes_iff.mpr ⟨_, read, found⟩) repeated found
    exact ⟨opened, denotes, resolveFields_ne_nil someWritten found, closed⟩

end GraphqlReference.Sdl
