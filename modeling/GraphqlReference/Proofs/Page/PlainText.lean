import GraphqlReference.Proofs.Html.PlainText
import GraphqlReference.Proofs.Page.Printing
import GraphqlReference.Proofs.Page.Resolving
import GraphqlReference.Proofs.Page.Supplying
import GraphqlReference.Proofs.Value.Writing

namespace GraphqlReference.Page

open Html

variable {style : String}

theorem shows_leaf (plain : (Attribute.style style).isPlain = true) (value : Value) :
    (leaf style value).Shows value.write :=
  (Fragment.shows_text value.write).spanning plain

theorem shows_composite {opening closing : String} {parts : List Fragment}
    {texts : List (List Char)} (plain : (Attribute.style style).isPlain = true)
    (shows : List.Forall₂ Fragment.Shows parts texts) :
    (composite style opening closing parts).Shows
      (opening.toList ++ [','].intercalate texts ++ closing.toList) := by
  have first := Fragment.shows_span opening plain
  have last := Fragment.shows_span closing plain
  cases shows with
  | nil => exact (first.append Fragment.shows_nil).append last
  | cons here later =>
      have comma : (Fragment.span "comma" ",").Shows [','] := Fragment.shows_span "," (by decide)
      have plainValue : (Attribute.style "value").isPlain = true := by decide
      have inner := (comma.join (.cons here later)).spanning plainValue
      exact (first.append inner).append last

mutual

theorem shows_literal {value : Value} {shown : Fragment} (printed : literal value = .ok shown) :
    shown.Shows (value.writeWith [','] [':']) := by
  cases value with
  | boolean value =>
      obtain ⟨⟩ := printed
      cases value <;> exact shows_leaf (by decide) _
  | int | string | enum | null =>
      obtain ⟨⟩ := printed
      exact shows_leaf (by decide) _
  | float number =>
      unfold literal at printed
      split at printed
      · obtain ⟨⟩ := printed
        exact shows_leaf (by decide) _
      · cases printed
  | list items =>
      obtain ⟨parts, printedParts, ⟨⟩⟩ := bind_eq_ok.mp printed
      exact shows_composite (by decide) (shows_literals printedParts)
  | object fields =>
      obtain ⟨parts, printedParts, ⟨⟩⟩ := bind_eq_ok.mp printed
      exact shows_composite (by decide) (shows_fieldLiterals printedParts)

theorem shows_literals {items : List Value} {parts : List Fragment}
    (printed : literals items = .ok parts) :
    List.Forall₂ Fragment.Shows parts (Value.itemsWith [','] [':'] items) := by
  cases items with
  | nil =>
      obtain ⟨⟩ := printed
      exact .nil
  | cons item rest =>
      obtain ⟨first, printedFirst, printed⟩ := bind_eq_ok.mp printed
      obtain ⟨more, printedMore, ⟨⟩⟩ := bind_eq_ok.mp printed
      exact .cons (shows_literal printedFirst) (shows_literals printedMore)

theorem shows_fieldLiterals {fields : List (String × Value)} {parts : List Fragment}
    (printed : fieldLiterals fields = .ok parts) :
    List.Forall₂ Fragment.Shows parts (Value.fieldsWith [','] [':'] fields) := by
  cases fields with
  | nil =>
      obtain ⟨⟩ := printed
      exact .nil
  | cons field rest =>
      obtain ⟨name, value⟩ := field
      obtain ⟨shown, printedValue, printed⟩ := bind_eq_ok.mp printed
      obtain ⟨more, printedMore, ⟨⟩⟩ := bind_eq_ok.mp printed
      have label : (Fragment.span "value-name" name).Shows name.toList :=
        Fragment.shows_span name (by decide)
      have colon : (Fragment.span "colon" ":").Shows [':'] := Fragment.shows_span ":" (by decide)
      have here := (label.append colon).append (shows_literal printedValue)
      exact .cons here (shows_fieldLiterals printedMore)

end

/-- The markup of a value can be made exactly if the value holds no float that is infinite or not a
number. It reads as the literal of the value, without the spaces behind the commas and colons. -/
theorem plainText_literal (value : Value) :
    (Succeeds (literal value) ↔ value.IsFinite) ∧
      value.writeWith [',', ' '] [':', ' '] = value.write ∧
      ∀ shown, literal value = .ok shown →
        plainText shown.write = value.writeWith [','] [':'] := by
  refine ⟨succeeds_literal value, value.writeWith_spaced, fun shown printed => ?_⟩
  exact (shows_literal printed).plainText

/-- Tags, entities, commas and colons of a string or name are read as they are. -/
theorem plainText_literal_lookalike : ∃ shown,
    literal (.object [("a, b", .list [.string "<i>: &lt;", .null]), ("c", .object [])]) =
        .ok shown ∧
      plainText shown.write = "\x7ba, b:[\"<i>: &lt;\",null],c:\x7b\x7d\x7d".toList := by
  obtain ⟨shown, printed⟩ : ∃ shown,
      literal (.object [("a, b", .list [.string "<i>: &lt;", .null]), ("c", .object [])]) =
        .ok shown := ⟨_, rfl⟩
  exact ⟨shown, printed, (plainText_literal _).2.2 shown printed⟩

/-- A supplied argument as it is read. The spaces between names, values and arguments do not
break. -/
def suppliedText (entry : String × Value) : List Char :=
  entry.1.toList ++ ":&nbsp;".toList ++ entry.2.writeWith [','] [':']

/-- Texts in parentheses, with commas and spaces between them; nothing if there are none. -/
def parenthesizedText (texts : List (List Char)) : List Char :=
  if texts.isEmpty then [] else '(' :: ",&nbsp;".toList.intercalate texts ++ [')']

/-- A usage as it is read: the name of its directive and behind it the supplied arguments. -/
def usageText (directive : String) (arguments : List (String × Value)) : List Char :=
  "&nbsp;".toList ++ '@' :: directive.toList ++ parenthesizedText (arguments.map suppliedText)

theorem shows_suppliedArgument {name : String} {value : Value} {shown : Fragment}
    (printed : suppliedArgument name value = .ok shown) :
    shown.Shows (suppliedText (name, value)) := by
  obtain ⟨literal, printedLiteral, ⟨⟩⟩ := bind_eq_ok.mp printed
  have label : (Fragment.span "directive-usage-name" name).Shows name.toList :=
    Fragment.shows_span name (by decide)
  have colon : (Fragment.span "colon" ":").Shows [':'] := Fragment.shows_span ":" (by decide)
  have content : (Fragment.spanning "directive-usage-value" literal).Shows
      (value.writeWith [','] [':']) := (shows_literal printedLiteral).spanning (by decide)
  have whole := (label.append colon).append (Fragment.shows_spacer.append content)
  simpa [suppliedText] using whole

theorem shows_parenthesized {parts : List Fragment} {texts : List (List Char)}
    (shows : List.Forall₂ Fragment.Shows parts texts) :
    (parenthesized parts).Shows (parenthesizedText texts) := by
  have spaced : ",&nbsp;".toList = ",".toList ++ "&nbsp;".toList := by decide
  have comma : (Fragment.span "comma" "," ++ [Piece.spacer]).Shows ",&nbsp;".toList :=
    spaced ▸ (Fragment.shows_span "," (by decide)).append Fragment.shows_spacer
  have joined := comma.join shows
  cases shows with
  | nil => exact Fragment.shows_nil
  | cons =>
      have opening : (Fragment.span "bracket-round" "(").Shows ['('] :=
        Fragment.shows_span "(" (by decide)
      have closing : (Fragment.span "bracket-round" ")").Shows [')'] :=
        Fragment.shows_span ")" (by decide)
      simpa [parenthesized, parenthesizedText] using (opening.append joined).append closing

theorem shows_directiveLink {schema : Schema} {name : String} {shown : Fragment}
    (printed : directiveLink schema name = .ok shown) : shown.Shows ('@' :: name.toList) := by
  unfold directiveLink at printed
  split at printed
  · cases printed
  · obtain ⟨⟩ := printed
    exact (Fragment.shows_text _).element (isPlain_reference _ (by decide))

theorem shows_usage {schema : Schema} {use : DirectiveUsage} {definition : DirectiveDefinition}
    (found : schema.directive? use.directive = some definition)
    (declared : ∀ entry ∈ use.arguments, (definition.argument? entry.1).isSome = true)
    {shown : Fragment} (printed : usage schema use = .ok shown) :
    shown.Shows (usageText use.directive (definition.differing use.arguments)) := by
  obtain ⟨link, parts, linked, differing, rfl⟩ := (usage_eq_ok found declared).mp printed
  have texts : List.Forall₂ Fragment.Shows parts
      ((definition.differing use.arguments).map suppliedText) :=
    List.forall₂_map_right_iff.mpr
      (differing.imp fun _ _ printed => shows_suppliedArgument printed).flip
  have link := Fragment.shows_spacer.append (shows_directiveLink linked)
  exact link.append (shows_parenthesized texts)

end GraphqlReference.Page
