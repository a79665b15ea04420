import GraphqlReference.Html.Piece
import GraphqlReference.Proofs.Text.Occurrence

namespace GraphqlReference.Html

/-- The entity of a markup character. Any other character stands for itself. -/
def escapeChar (c : Char) : List Char :=
  if c = '&' then "&amp;".toList
  else if c = '<' then "&lt;".toList
  else if c = '>' then "&gt;".toList
  else if c = '"' then "&quot;".toList
  else [c]

theorem replaceChar_append (old : Char) (new first second : List Char) :
    replaceChar old new (first ++ second) =
      replaceChar old new first ++ replaceChar old new second :=
  List.flatMap_append

theorem replaceChar_singleton {old c : Char} (different : c ≠ old) (new : List Char) :
    replaceChar old new [c] = [c] := by
  rw [replaceChar, List.flatMap_singleton, if_neg different]

@[simp] theorem escape_nil : escape [] = [] := rfl

@[simp] theorem escape_append (first second : List Char) :
    escape (first ++ second) = escape first ++ escape second := by
  simp only [escape, replaceChar_append]

theorem escape_singleton (c : Char) : escape [c] = escapeChar c := by
  by_cases ampersand : c = '&'
  · subst c; rfl
  · by_cases less : c = '<'
    · subst c; rfl
    · by_cases greater : c = '>'
      · subst c; rfl
      · by_cases quote : c = '"'
        · subst c; rfl
        · simp only [escape, escapeChar, replaceChar_singleton, ampersand, less, greater, quote,
            ne_eq, not_false_eq_true, if_false]

@[simp] theorem escape_cons (c : Char) (text : List Char) :
    escape (c :: text) = escapeChar c ++ escape text := by
  rw [← escape_singleton, ← escape_append, List.singleton_append]

theorem escape_eq_flatMap (text : List Char) : escape text = text.flatMap escapeChar := by
  induction text with
  | nil => rfl
  | cons c rest ih => rw [escape_cons, ih, List.flatMap_cons]

/-- Characters that only markup itself is written with. -/
def isMarkupChar (c : Char) : Bool :=
  c == '<' || c == '>' || c == '"'

theorem escapeChar_of_plain {c : Char} (ampersand : c ≠ '&') (plain : isMarkupChar c = false) :
    escapeChar c = [c] := by
  simp only [isMarkupChar, Bool.or_eq_false_iff, beq_eq_false_iff_ne] at plain
  simp [escapeChar, ampersand, plain]

theorem escape_of_plain {text : List Char}
    (plain : ∀ c ∈ text, c ≠ '&' ∧ isMarkupChar c = false) : escape text = text := by
  induction text with
  | nil => rfl
  | cons c rest ih =>
      obtain ⟨⟨unescaped, unmarked⟩, others⟩ := List.forall_mem_cons.mp plain
      rw [escape_cons, escapeChar_of_plain unescaped unmarked, ih others, List.singleton_append]

/-- What a single character becomes, case by case. -/
theorem escapeChar_cases (c : Char) :
    (c ≠ '&' ∧ isMarkupChar c = false ∧ escapeChar c = [c]) ∨
      (c = '&' ∧ escapeChar c = "&amp;".toList) ∨ (c = '<' ∧ escapeChar c = "&lt;".toList) ∨
      (c = '>' ∧ escapeChar c = "&gt;".toList) ∨ (c = '"' ∧ escapeChar c = "&quot;".toList) := by
  by_cases ampersand : c = '&'
  · subst c; exact .inr (.inl ⟨rfl, rfl⟩)
  · cases plain : isMarkupChar c with
    | false => exact .inl ⟨ampersand, rfl, escapeChar_of_plain ampersand plain⟩
    | true =>
        simp only [isMarkupChar, Bool.or_eq_true, beq_iff_eq] at plain
        rcases plain with (rfl | rfl) | rfl
        · exact .inr (.inr (.inl ⟨rfl, rfl⟩))
        · exact .inr (.inr (.inr (.inl ⟨rfl, rfl⟩)))
        · exact .inr (.inr (.inr (.inr ⟨rfl, rfl⟩)))

theorem escapeChar_plain {c shown : Char} (member : shown ∈ escapeChar c) :
    isMarkupChar shown = false := by
  have plain : (escapeChar c).all (!isMarkupChar ·) = true := by
    rcases escapeChar_cases c with ⟨_, plain, eq⟩ | ⟨_, eq⟩ | ⟨_, eq⟩ | ⟨_, eq⟩ | ⟨_, eq⟩
    · simp [eq, plain]
    all_goals
      rw [eq]
      decide
  simpa using List.all_eq_true.mp plain shown member

theorem escape_plain {text : List Char} {c : Char} (member : c ∈ escape text) :
    isMarkupChar c = false := by
  rw [escape_eq_flatMap, List.mem_flatMap] at member
  obtain ⟨original, _, shown⟩ := member
  exact escapeChar_plain shown

theorem markupChar_not_mem_escape {c : Char} (markup : isMarkupChar c = true) (text : List Char) :
    c ∉ escape text := by
  intro member
  rw [escape_plain member] at markup
  exact Bool.false_ne_true markup

/-- The text that an escaped text stands for. -/
def unescape : List Char → List Char
  | '&' :: 'a' :: 'm' :: 'p' :: ';' :: rest => '&' :: unescape rest
  | '&' :: 'l' :: 't' :: ';' :: rest => '<' :: unescape rest
  | '&' :: 'g' :: 't' :: ';' :: rest => '>' :: unescape rest
  | '&' :: 'q' :: 'u' :: 'o' :: 't' :: ';' :: rest => '"' :: unescape rest
  | c :: rest => c :: unescape rest
  | [] => []

theorem unescape_cons {c : Char} (ampersand : c ≠ '&') (rest : List Char) :
    unescape (c :: rest) = c :: unescape rest := by
  rw [unescape]
  all_goals
    intros
    contradiction

theorem unescape_escape_append (text rest : List Char) :
    unescape (escape text ++ rest) = text ++ unescape rest := by
  induction text with
  | nil => rfl
  | cons c text ih =>
      rw [escape_cons, List.append_assoc, List.cons_append]
      rcases escapeChar_cases c with
        ⟨unescaped, _, eq⟩ | ⟨rfl, eq⟩ | ⟨rfl, eq⟩ | ⟨rfl, eq⟩ | ⟨rfl, eq⟩
      · rw [eq, List.singleton_append, unescape_cons unescaped, ih]
      all_goals
        rw [eq]
        exact congrArg _ ih

theorem unescape_escape (text : List Char) : unescape (escape text) = text := by
  have alone := unescape_escape_append text []
  rwa [List.append_nil, unescape, List.append_nil] at alone

theorem escape_inj {text text' : List Char} : escape text = escape text' ↔ text = text' := by
  refine ⟨fun same => ?_, congrArg escape⟩
  rw [← unescape_escape text, same, unescape_escape]

/-- The ways in which an ampersand may be meant. -/
def entities : List (List Char) :=
  ["&amp;", "&lt;", "&gt;", "&quot;", "&nbsp;"].map String.toList

/-- Every ampersand of a text begins an entity. -/
def AmpersandsEscaped (text : List Char) : Prop :=
  ∀ before after, text = before ++ '&' :: after → ∃ entity ∈ entities, entity <+: '&' :: after

theorem ampersandsEscaped_of_not_mem {text : List Char} (absent : '&' ∉ text) :
    AmpersandsEscaped text := by
  rintro before after rfl
  exact absurd (by simp) absent

theorem AmpersandsEscaped.append {first second : List Char} (escaped : AmpersandsEscaped first)
    (escaped' : AmpersandsEscaped second) : AmpersandsEscaped (first ++ second) := by
  intro before after same
  rcases Text.append_eq_append_cons same with ⟨rest, inFirst, behind⟩ | ⟨rest, _, inSecond⟩
  · obtain ⟨entity, member, begins⟩ := escaped before rest inFirst
    exact ⟨entity, member, begins.trans ⟨second, by simp [behind]⟩⟩
  · exact escaped' rest after inSecond

theorem ampersandsEscaped_entity {entity : List Char} (member : entity ∈ entities) :
    AmpersandsEscaped entity := by
  have alone : ∀ entity ∈ entities, entity.head? = some '&' ∧ '&' ∉ entity.tail := by decide
  obtain ⟨head, tail⟩ := alone entity member
  intro before after same
  cases entity with
  | nil => cases head
  | cons first rest =>
      obtain rfl : first = '&' := by simpa using head
      have cut : [] ++ '&' :: rest = before ++ '&' :: after := same
      rcases Text.append_cons_eq_append_cons List.not_mem_nil cut with
        ⟨_, rfl⟩ | ⟨_, _, again⟩
      · exact ⟨_, member, List.prefix_rfl⟩
      · exact absurd (by simp [again]) tail

theorem ampersandsEscaped_escapeChar (c : Char) : AmpersandsEscaped (escapeChar c) := by
  rcases escapeChar_cases c with ⟨unescaped, _, eq⟩ | ⟨_, eq⟩ | ⟨_, eq⟩ | ⟨_, eq⟩ | ⟨_, eq⟩
  · exact ampersandsEscaped_of_not_mem (by simp [eq, unescaped.symm])
  all_goals
    rw [eq]
    exact ampersandsEscaped_entity (by decide)

theorem ampersandsEscaped_escape (text : List Char) : AmpersandsEscaped (escape text) := by
  induction text with
  | nil => exact ampersandsEscaped_of_not_mem (by simp)
  | cons c rest ih =>
      rw [escape_cons]
      exact (ampersandsEscaped_escapeChar c).append ih

end GraphqlReference.Html
