import GraphqlReference.Proofs.Html.Flow
import GraphqlReference.Proofs.Page.Names
import GraphqlReference.Proofs.Page.Supplying

namespace GraphqlReference.Page

open Html

/-- The anchors of the declarations that references lead to. -/
inductive IsLinked (schema : Schema) : String → Prop
  | type {definition : TypeDefinition} : definition ∈ schema.types →
      definition.isBuiltIn = false → IsLinked schema (typeAnchor definition.name)
  | directive {definition : DirectiveDefinition} : definition ∈ schema.directives →
      definition.isBuiltIn = false → IsLinked schema (directiveAnchor definition.name)

/-- The rules allow what a schema refers to and names. -/
structure Permits (rules : Rules) (schema : Schema) : Prop where
  reference : ∀ {style : String} {target : Option String} {title : String},
    (Attribute.style style).isPlain = true → (∀ anchor ∈ target, IsLinked schema anchor) →
    rules.opens .anchor (.style style :: target.toList.map .target ++ [.title title])
  named : ∀ name ∈ schema.names, rules.shows name.toList

theorem isPlain_reference {style title : String} (target : Option String)
    (plain : (Attribute.style style).isPlain = true) :
    (Attribute.style style :: target.toList.map Attribute.target ++ [Attribute.title title]).all
      Attribute.isPlain = true := by
  have rest : (target.toList.map Attribute.target ++ [Attribute.title title]).all
      Attribute.isPlain = true := by
    cases target <;> rfl
  exact Bool.and_eq_true_iff.mpr ⟨plain, rest⟩

section

variable {rules : Rules}

theorem shows_of_mem {text : List Char} {c : Char} (member : c ∈ text)
    (visible : Text.isBlank c = false) : rules.shows text :=
  rules.visible (Text.isVisible_of_mem member visible)

theorem shows_writeInt (value : Int) : rules.shows (Value.writeInt value) := by
  obtain ⟨first, rest, digits⟩ := List.exists_cons_of_ne_nil
    (Nat.toDigits_ne_nil (n := value.natAbs) (b := 10))
  have digit : first.isDigit = true :=
    Nat.isDigit_of_mem_toDigits (by decide) (by decide) (digits ▸ List.mem_cons_self)
  refine shows_of_mem (c := first) ?_ (Text.isBlank_of_isDigit digit)
  unfold Value.writeInt
  rw [digits]
  split
  · exact List.mem_cons_of_mem _ List.mem_cons_self
  · exact List.mem_cons_self

theorem shows_writeFractional {number : Binary64} (finite : number.isFinite = true) :
    rules.shows number.writeFractional := by
  refine shows_of_mem (c := '.') ?_ (by decide)
  unfold Binary64.writeFractional
  rw [finite]
  by_cases dot : '.' ∈ number.write <;> simp [dot]

theorem closed_leaf {style : String} {value : Value}
    (plain : (Attribute.style style).isPlain = true) (shown : rules.shows value.write) :
    Closed rules (leaf style value) :=
  (filling_text shown).closed_spanning plain

theorem closed_mark {style mark : String} (plain : (Attribute.style style).isPlain = true)
    (visible : Text.isVisible mark.toList = true) : Closed rules (Fragment.span style mark) :=
  closed_span plain (rules.visible visible)

theorem closed_comma : Closed rules (Fragment.span "comma" ",") :=
  closed_mark (by decide) (by decide)

theorem closed_colon : Closed rules (Fragment.span "colon" ":") :=
  closed_mark (by decide) (by decide)

theorem closed_equals : Closed rules (Fragment.span "equals" "=") :=
  closed_mark (by decide) (by decide)

theorem closed_openingRound : Closed rules (Fragment.span "bracket-round" "(") :=
  closed_mark (by decide) (by decide)

theorem closed_closingRound : Closed rules (Fragment.span "bracket-round" ")") :=
  closed_mark (by decide) (by decide)

theorem closed_composite {style opening closing : String} {parts : List Fragment}
    (plain : (Attribute.style style).isPlain = true)
    (opens : Text.isVisible opening.toList = true)
    (closes : Text.isVisible closing.toList = true)
    (closed : ∀ part ∈ parts, Closed rules part) :
    Closed rules (composite style opening closing parts) := by
  have first : Closed rules (Fragment.span style opening) := closed_mark plain opens
  have last : Closed rules (Fragment.span style closing) := closed_mark plain closes
  cases parts with
  | nil => exact (first.append spaced_nil).append last.spaced
  | cons part rest =>
      have inner := closed_join closed_comma.spaced.joint closed (List.cons_ne_nil part rest)
      exact first.around (inner.filling.closed_spanning (by decide)).filling last

mutual

theorem closed_literal {value : Value} {shown : Fragment} (printed : literal value = .ok shown)
    (named : ∀ name ∈ value.names, rules.shows name.toList) : Closed rules shown := by
  cases value with
  | boolean value =>
      obtain ⟨⟩ := printed
      cases value <;> exact closed_leaf (by decide) (rules.visible (by decide))
  | int value =>
      obtain ⟨⟩ := printed
      exact closed_leaf (by decide) (shows_writeInt value.toInt)
  | float number =>
      unfold literal at printed
      split at printed
      · rename_i finite
        obtain ⟨⟩ := printed
        exact closed_leaf (by decide) (shows_writeFractional finite)
      · cases printed
  | string text =>
      obtain ⟨⟩ := printed
      exact closed_leaf (by decide) (shows_of_mem (c := '"') List.mem_cons_self (by decide))
  | enum name =>
      obtain ⟨⟩ := printed
      exact closed_leaf (by decide) (named name List.mem_cons_self)
  | null =>
      obtain ⟨⟩ := printed
      exact closed_leaf (by decide) (rules.visible (by decide))
  | list items =>
      obtain ⟨parts, printedParts, ⟨⟩⟩ := bind_eq_ok.mp printed
      exact closed_composite (by decide) (by decide) (by decide)
        (closed_literals printedParts named)
  | object fields =>
      obtain ⟨parts, printedParts, ⟨⟩⟩ := bind_eq_ok.mp printed
      exact closed_composite (by decide) (by decide) (by decide)
        (closed_fieldLiterals printedParts named)

theorem closed_literals {values : List Value} {parts : List Fragment}
    (printed : literals values = .ok parts)
    (named : ∀ name ∈ Value.itemNames values, rules.shows name.toList) :
    ∀ part ∈ parts, Closed rules part := by
  cases values with
  | nil =>
      obtain ⟨⟩ := printed
      exact fun _ member => absurd member List.not_mem_nil
  | cons item rest =>
      obtain ⟨first, printedFirst, printed⟩ := bind_eq_ok.mp printed
      obtain ⟨more, printedMore, ⟨⟩⟩ := bind_eq_ok.mp printed
      obtain ⟨namedFirst, namedRest⟩ := List.forall_mem_append.mp named
      exact List.forall_mem_cons.mpr
        ⟨closed_literal printedFirst namedFirst, closed_literals printedMore namedRest⟩

theorem closed_fieldLiterals {fields : List (String × Value)} {parts : List Fragment}
    (printed : fieldLiterals fields = .ok parts)
    (named : ∀ name ∈ Value.fieldNames fields, rules.shows name.toList) :
    ∀ part ∈ parts, Closed rules part := by
  cases fields with
  | nil =>
      obtain ⟨⟩ := printed
      exact fun _ member => absurd member List.not_mem_nil
  | cons field rest =>
      obtain ⟨name, value⟩ := field
      obtain ⟨shown, printedValue, printed⟩ := bind_eq_ok.mp printed
      obtain ⟨more, printedMore, ⟨⟩⟩ := bind_eq_ok.mp printed
      obtain ⟨namedField, namedRest⟩ := List.forall_mem_append.mp named
      obtain ⟨namedHere, namedValue⟩ := List.forall_mem_cons.mp namedField
      have label : Closed rules (Fragment.span "value-name" name) :=
        closed_span (by decide) namedHere
      have inner := closed_literal printedValue namedValue
      exact List.forall_mem_cons.mpr ⟨(label.append closed_colon.spaced).append inner.spaced,
        closed_fieldLiterals printedMore namedRest⟩

end

theorem filling_typeDisplay {type : TypeRef} {shown : Fragment}
    (printed : typeDisplay type = .ok shown) (named : rules.shows type.innermost.toList) :
    Filling rules shown := by
  induction type generalizing shown with
  | named name =>
      obtain ⟨⟩ := printed
      exact filling_text named
  | nonNull inner ih =>
      have mark : Closed rules (Fragment.span "exclamation-mark" "!") :=
        closed_mark (by decide) (by decide)
      cases inner with
      | nonNull => cases printed
      | named | list =>
          obtain ⟨text, inside, ⟨⟩⟩ := bind_eq_ok.mp printed
          exact (ih inside named).append mark
  | list inner ih =>
      obtain ⟨text, inside, ⟨⟩⟩ := bind_eq_ok.mp printed
      have first : Closed rules (Fragment.span "bracket-square" "[") :=
        closed_mark (by decide) (by decide)
      have last : Closed rules (Fragment.span "bracket-square" "]") :=
        closed_mark (by decide) (by decide)
      exact (first.around (ih inside named) last).filling

variable {schema : Schema}

theorem Permits.shows_type (permits : Permits rules schema) {name : String}
    {definition : TypeDefinition} (found : schema.type? name = some definition) :
    rules.shows name.toList := by
  obtain ⟨member, rfl⟩ := Schema.type?_eq_some found
  exact permits.named _ (Schema.mem_names_of_type member List.mem_cons_self)

theorem Permits.closed_link (permits : Permits rules schema) {style title : String}
    {target : Option String} {content : Fragment} (plain : (Attribute.style style).isPlain = true)
    (linked : ∀ anchor ∈ target, IsLinked schema anchor) (filling : Filling rules content) :
    Closed rules (Fragment.link style target title content) :=
  filling.closed_element (permits.reference plain linked)

theorem closed_typeLink (permits : Permits rules schema) {style : String} {type : TypeRef}
    {shown : Fragment} (plain : (Attribute.style style).isPlain = true)
    (printed : typeLink schema style type = .ok shown) : Closed rules shown := by
  unfold typeLink at printed
  dsimp only at printed
  split at printed
  · cases printed
  · rename_i definition found
    obtain ⟨text, inside, ⟨⟩⟩ := bind_eq_ok.mp printed
    refine permits.closed_link plain (fun anchor member => ?_)
      (filling_typeDisplay inside (permits.shows_type found))
    cases builtIn : definition.isBuiltIn with
    | true => simp [builtIn] at member
    | false =>
        obtain ⟨declared, name⟩ := Schema.type?_eq_some found
        have target : anchor = typeAnchor definition.name := by
          simpa [builtIn, name, eq_comm] using member
        exact target ▸ .type declared builtIn

theorem closed_directiveLink (permits : Permits rules schema) {name : String} {shown : Fragment}
    (printed : directiveLink schema name = .ok shown) : Closed rules shown := by
  unfold directiveLink at printed
  split at printed
  · cases printed
  · rename_i definition found
    obtain ⟨⟩ := printed
    refine permits.closed_link (by decide) (fun anchor member => ?_)
      (filling_text (shows_of_mem (c := '@') List.mem_cons_self (by decide)))
    cases builtIn : definition.isBuiltIn with
    | true => simp [builtIn] at member
    | false =>
        obtain ⟨declared, name⟩ := Schema.directive?_eq_some found
        have target : anchor = directiveAnchor definition.name := by
          simpa [builtIn, name, eq_comm] using member
        exact target ▸ .directive declared builtIn

theorem closed_suppliedArgument {name : String} {value : Value} {shown : Fragment}
    (printed : suppliedArgument name value = .ok shown) (namedHere : rules.shows name.toList)
    (named : ∀ name ∈ value.names, rules.shows name.toList) : Closed rules shown := by
  obtain ⟨text, inside, ⟨⟩⟩ := bind_eq_ok.mp printed
  have label : Closed rules (Fragment.span "directive-usage-name" name) :=
    closed_span (by decide) namedHere
  have inner : Closed rules (Fragment.spanning "directive-usage-value" text) :=
    (closed_literal inside named).filling.closed_spanning (by decide)
  exact (label.append closed_colon.spaced).append inner.spaced_spacer

theorem closed_suppliedArguments {definition : DirectiveDefinition}
    {supplied : List (String × Value)} {parts : List Fragment}
    (printed : suppliedArguments definition supplied = .ok parts)
    (declared : ∀ argument ∈ definition.arguments, rules.shows argument.name.toList)
    (named : ∀ name ∈ supplied.flatMap (fun (_, value) => value.names), rules.shows name.toList) :
    ∀ part ∈ parts, Closed rules part := by
  intro part member
  obtain ⟨entry, inside, ⟨argument, found⟩, shown⟩ := mem_of_suppliedArguments printed member
  obtain ⟨declaredHere, named'⟩ := DirectiveDefinition.argument?_eq_some found
  exact closed_suppliedArgument shown (named' ▸ declared argument declaredHere)
    fun name mentioned => named name (List.mem_flatMap.mpr ⟨entry, inside, mentioned⟩)

theorem spaced_parenthesized {parts : List Fragment} (closed : ∀ part ∈ parts, Closed rules part) :
    Spaced rules (parenthesized parts) := by
  cases parts with
  | nil => exact spaced_nil
  | cons part rest =>
      have inner := closed_join closed_comma.spaced.joint_spacer closed (List.cons_ne_nil part rest)
      exact (closed_openingRound.around inner.filling closed_closingRound).spaced

theorem Permits.shows_argument (permits : Permits rules schema) {name : String}
    {definition : DirectiveDefinition} (found : schema.directive? name = some definition) :
    ∀ argument ∈ definition.arguments, rules.shows argument.name.toList := fun _ member =>
  permits.named _ (Schema.mem_names_of_directive (Schema.directive?_eq_some found).1
    (List.mem_flatMap_of_mem member List.mem_cons_self))

theorem parted_usage (permits : Permits rules schema) {usage : DirectiveUsage} {shown : Fragment}
    (printed : Page.usage schema usage = .ok shown)
    (named : ∀ name ∈ usage.names, rules.shows name.toList) : Parted rules shown := by
  unfold Page.usage at printed
  split at printed
  · cases printed
  · rename_i definition found
    obtain ⟨parts, printedArguments, printed⟩ := bind_eq_ok.mp printed
    obtain ⟨link, printedLink, ⟨⟩⟩ := bind_eq_ok.mp printed
    have supplied := closed_suppliedArguments printedArguments (permits.shows_argument found) named
    exact ((closed_directiveLink permits printedLink).parted_spacer).append
      (spaced_parenthesized supplied)

theorem spaced_usages (permits : Permits rules schema) {usages : List DirectiveUsage}
    {shown : Fragment} (printed : Page.usages schema usages = .ok shown)
    (named : ∀ name ∈ usages.flatMap DirectiveUsage.names, rules.shows name.toList) :
    Spaced rules shown := by
  induction usages generalizing shown with
  | nil =>
      obtain ⟨⟩ := printed
      exact spaced_nil
  | cons first rest ih =>
      obtain ⟨namedFirst, namedRest⟩ := List.forall_mem_append.mp named
      obtain ⟨text, printedFirst, printed⟩ := bind_eq_ok.mp printed
      obtain ⟨more, printedMore, ⟨⟩⟩ := bind_eq_ok.mp printed
      exact (parted_usage permits printedFirst namedFirst).spaced.append (ih printedMore namedRest)

end

end GraphqlReference.Page
