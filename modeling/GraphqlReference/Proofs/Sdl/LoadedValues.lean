import GraphqlReference.Page.Literal
import GraphqlReference.Proofs.Sdl.Denoting
import GraphqlReference.Proofs.Sdl.ReadSites
import GraphqlReference.Proofs.Sdl.WrittenDefaults

namespace GraphqlReference

namespace Sdl

open Text

/-- An argument is declared in a source: by its name, a colon and its type, and by an equals sign
and a literal exactly if it has the value of this literal for its default. -/
def Declares (source : List Char) (argument : Argument) : Prop :=
  ∃ text atColon atType behind, text <:+ source ∧ name text = some (argument.name, atColon) ∧
    keyword ":" atColon = some ((), atType) ∧ typeRef atType = some (argument.type, behind) ∧
    ∀ value, argument.default = some value ↔
      ∃ literal rest, keyword "=" behind = some ((), literal) ∧ Denotes literal value rest

/-- A directive is applied in a source: by an at sign and its name, and with the values that are
denoted in parentheses behind them, or with none if there are no such parentheses. -/
def Applies (source : List Char) (usage : DirectiveUsage) : Prop :=
  ∃ text atName behind, text <:+ source ∧ keyword "@" text = some ((), atName) ∧
    name atName = some (usage.directive, behind) ∧
    ((∃ fields rest, DenotesArguments behind fields rest ∧
        usage.arguments = collectNamed fields) ∨
      (usage.arguments = [] ∧ ∀ fields rest, ¬ DenotesArguments behind fields rest))

def StandsIn (source : List Char) : ValueSite → Prop
  | .argument argument => Declares source argument
  | .usage usage => Applies source usage

section

variable {source : List Char}

theorem default_eq_some_iff {behind : List Char} {default : Option Value}
    (found : resolveDefault (optional defaultValue behind).1 = some default) (value : Value) :
    default = some value ↔
      ∃ literal rest, keyword "=" behind = some ((), literal) ∧ Denotes literal value rest := by
  constructor
  · rintro rfl
    cases read : defaultValue behind with
    | none =>
        rw [Text.optional, read] at found
        cases found
    | some result =>
        obtain ⟨written, rest⟩ := result
        rw [Text.optional, read] at found
        obtain ⟨_, resolved, ⟨⟩⟩ := Option.map_eq_some_iff.mp found
        obtain ⟨⟨_, literal⟩, marked, readValue⟩ := Option.bind_eq_some_iff.mp read
        exact ⟨literal, rest, marked, denotes_iff.mpr ⟨written, readValue, resolved⟩⟩
  · rintro ⟨literal, rest, marked, denotes⟩
    obtain ⟨written, read, resolved⟩ := denotes_iff.mp denotes
    have default : defaultValue behind = some (written, rest) := by
      simp [defaultValue, marked, read]
    rw [Text.optional, default, resolveDefault, resolved] at found
    exact (Option.some.inj found).symm

theorem declares_of_isWritten {written argument : Argument}
    (isWritten : IsWritten source (.argument written))
    (resolved : resolveArgument written = some argument) : Declares source argument := by
  obtain ⟨text, rest, inside, read⟩ := isWritten
  obtain ⟨⟨_, atColon⟩, readName, read⟩ := Option.bind_eq_some_iff.mp read
  obtain ⟨⟨_, atType⟩, colon, read⟩ := Option.bind_eq_some_iff.mp read
  obtain ⟨⟨_, behind⟩, readType, ⟨⟩⟩ := Option.bind_eq_some_iff.mp read
  obtain ⟨default, foundDefault, resolved⟩ := Option.bind_eq_some_iff.mp resolved
  obtain ⟨_, _, ⟨⟩⟩ := Option.bind_eq_some_iff.mp resolved
  exact ⟨_, atColon, atType, behind, (consumes_string.optional text).trans inside, readName, colon,
    readType, default_eq_some_iff foundDefault⟩

theorem applies_of_isWritten {written usage : DirectiveUsage}
    (isWritten : IsWritten source (.usage written))
    (resolved : resolveUsage written = some usage) : Applies source usage := by
  obtain ⟨text, rest, inside, read⟩ := isWritten
  obtain ⟨⟨_, atName⟩, marked, read⟩ := Option.bind_eq_some_iff.mp read
  obtain ⟨⟨_, behind⟩, readName, ⟨⟩⟩ := Option.bind_eq_some_iff.mp read
  obtain ⟨fields, found, ⟨⟩⟩ := Option.bind_eq_some_iff.mp resolved
  refine ⟨text, atName, behind, inside, marked, readName, ?_⟩
  cases read : enclosed "(" ")" (namedValue value) behind with
  | none =>
      simp only [read] at found
      obtain ⟨⟩ := found
      refine .inr ⟨rfl, fun fields rest denotes => ?_⟩
      obtain ⟨_, other, _⟩ := denotesArguments_iff.mp denotes
      cases read.symm.trans other
  | some result =>
      simp only [read] at found
      exact .inl ⟨fields, _, denotesArguments_iff.mpr ⟨_, read, found⟩, rfl⟩

def AllStandIn (source : List Char) (sites : List ValueSite) : Prop :=
  ∀ site ∈ sites, StandsIn source site

theorem allStandIn_usages {written usages : List DirectiveUsage}
    (allWritten : AllWritten source (written.map .usage))
    (resolved : resolveUsages written = some usages) :
    AllStandIn source (usages.map .usage) := by
  intro site member
  obtain ⟨usage, inside, rfl⟩ := List.mem_map.mp member
  obtain ⟨origin, among, here⟩ := mem_of_mapM_some resolved inside
  exact applies_of_isWritten (allWritten _ (List.mem_map_of_mem among)) here

theorem allStandIn_mapM {α : Type} {sites : α → List ValueSite} {resolve : α → Option α}
    (each : ∀ {item result}, AllWritten source (sites item) → resolve item = some result →
      AllStandIn source (sites result))
    {items results : List α} (allWritten : AllWritten source (items.flatMap sites))
    (found : items.mapM resolve = some results) : AllStandIn source (results.flatMap sites) := by
  refine List.forall_mem_flatMap.mpr fun result member => ?_
  obtain ⟨item, inside, here⟩ := mem_of_mapM_some found member
  exact each (List.forall_mem_flatMap.mp allWritten item inside) here

theorem allStandIn_argument {written argument : Argument}
    (allWritten : AllWritten source written.sites)
    (resolved : resolveArgument written = some argument) : AllStandIn source argument.sites := by
  obtain ⟨own, ofUsages⟩ := List.forall_mem_cons.mp allWritten
  have declares : StandsIn source (.argument argument) := declares_of_isWritten own resolved
  obtain ⟨_, _, resolved⟩ := Option.bind_eq_some_iff.mp resolved
  obtain ⟨usages, found, ⟨⟩⟩ := Option.bind_eq_some_iff.mp resolved
  exact List.forall_mem_cons.mpr ⟨declares, allStandIn_usages ofUsages found⟩

theorem allStandIn_field {written field : Field} (allWritten : AllWritten source written.sites)
    (resolved : resolveField written = some field) : AllStandIn source field.sites := by
  obtain ⟨ofUsages, ofArguments⟩ := allWritten_append.mp allWritten
  obtain ⟨arguments, foundArguments, resolved⟩ := Option.bind_eq_some_iff.mp resolved
  obtain ⟨usages, foundUsages, ⟨⟩⟩ := Option.bind_eq_some_iff.mp resolved
  exact List.forall_mem_append.mpr ⟨allStandIn_usages ofUsages foundUsages,
    allStandIn_mapM allStandIn_argument ofArguments foundArguments⟩

theorem allStandIn_item {written item : EnumItem} (allWritten : AllWritten source written.sites)
    (resolved : resolveItem written = some item) : AllStandIn source item.sites := by
  obtain ⟨usages, found, ⟨⟩⟩ := Option.bind_eq_some_iff.mp resolved
  exact allStandIn_usages allWritten found

theorem allStandIn_body {written body : TypeBody} (allWritten : AllWritten source written.sites)
    (resolved : resolveBody written = some body) : AllStandIn source body.sites := by
  cases written with
  | object | interface =>
      obtain ⟨fields, found, ⟨⟩⟩ := Option.map_eq_some_iff.mp resolved
      exact allStandIn_mapM allStandIn_field allWritten found
  | inputObject =>
      obtain ⟨fields, found, ⟨⟩⟩ := Option.map_eq_some_iff.mp resolved
      exact allStandIn_mapM allStandIn_argument allWritten found
  | enum =>
      obtain ⟨items, found, ⟨⟩⟩ := Option.map_eq_some_iff.mp resolved
      exact allStandIn_mapM allStandIn_item allWritten found
  | union | scalar =>
      obtain ⟨⟩ := resolved
      exact fun _ member => absurd member List.not_mem_nil

theorem allStandIn_type {written definition : TypeDefinition}
    (allWritten : AllWritten source written.sites)
    (resolved : resolveType written = some definition) : AllStandIn source definition.sites := by
  obtain ⟨ofUsages, ofBody⟩ := allWritten_append.mp allWritten
  obtain ⟨usages, foundUsages, resolved⟩ := Option.bind_eq_some_iff.mp resolved
  obtain ⟨body, foundBody, ⟨⟩⟩ := Option.bind_eq_some_iff.mp resolved
  exact List.forall_mem_append.mpr
    ⟨allStandIn_usages ofUsages foundUsages, allStandIn_body ofBody foundBody⟩

end

namespace Definition

def sites : Definition → List ValueSite
  | .schema block => block.usages.map .usage
  | .type definition | .extension definition => definition.sites
  | .directive definition => definition.sites

end Definition

theorem allStandIn_resolve {source : List Char} {written : WrittenDefinition}
    {definition : Definition} (allWritten : AllWritten source written.sites)
    (found : written.resolve source = .ok definition) : AllStandIn source definition.sites := by
  cases written with
  | schema extending usages roots =>
      obtain ⟨resolved, block, foundUsages, made, rfl⟩ := resolve_schema_eq_ok.mp found
      rw [Definition.sites, usages_schemaBlock made]
      exact allStandIn_usages allWritten foundUsages
  | type extending written =>
      obtain ⟨_, foundType, rfl⟩ := resolve_type_eq_ok.mp found
      cases extending <;> exact allStandIn_type allWritten foundType
  | directive written places =>
      obtain ⟨_, foundArguments, rfl⟩ := resolve_directive_eq_ok.mp found
      exact allStandIn_mapM allStandIn_argument allWritten foundArguments

theorem allStandIn_readDocument {source : List Char} {definitions : List Definition}
    (read : readDocument source = .ok definitions) :
    ∀ definition ∈ definitions, AllStandIn source definition.sites := by
  obtain ⟨origins, found, resolved⟩ := readDocument_eq_ok.mp read
  intro definition member
  obtain ⟨origin, inside, here⟩ := mem_of_forall₂ resolved member
  exact allStandIn_resolve (allWritten_definitions found origin inside) here

def builtInSites : List ValueSite :=
  BuiltIn.directives.flatMap DirectiveDefinition.sites

/-- All values of a schema from a document are denoted by its text, but for those of the built-in
directives. -/
theorem standsIn_of_parse {source : String} {schema : Schema} (parsed : parse source = .ok schema) :
    ∀ site ∈ schema.sites, site ∈ builtInSites ∨ StandsIn source.toList site := by
  obtain ⟨definitions, read, loaded⟩ := bind_eq_ok.mp parsed
  have user := isUser_readDocument read
  have written := allStandIn_readDocument read
  have usages : AllStandIn source.toList (schema.usages.map .usage) :=
    List.forall_mem_map.mpr (forall_usages user loaded fun block member =>
      List.forall_mem_map.mp (written _ member))
  have types : ∀ definition ∈ schema.types, AllStandIn source.toList definition.sites := by
    refine forall_types user loaded ?_ (fun _ => written _) fun definition extension holds member =>
      ?_
    · have none : BuiltIn.scalars.flatMap TypeDefinition.sites = [] := rfl
      exact List.forall_mem_flatMap.mp (none ▸ fun _ member => absurd member List.not_mem_nil)
    · intro site inside
      rcases List.mem_append.mp (definition.sites_extendWith extension inside) with own | added
      · exact holds site own
      · exact written _ member site added
  have directives : ∀ definition ∈ schema.directives, ∀ site ∈ definition.sites,
      site ∈ builtInSites ∨ StandsIn source.toList site :=
    forall_directives user loaded
      (fun definition member site inside =>
        .inl (List.mem_flatMap.mpr ⟨definition, member, inside⟩))
      fun _ member site inside => .inr (written _ member site inside)
  intro site member
  rcases List.mem_append.mp member with inside | inside
  · refine .inr ?_
    rcases List.mem_append.mp inside with inside | inside
    · exact usages site inside
    · exact List.forall_mem_flatMap.mpr types site inside
  · exact List.forall_mem_flatMap.mpr directives site inside

theorem eq_of_denotes_leaf {text rest behind : List Char} {token value : Value}
    (read : leaf text = some (token, rest)) (denotes : Denotes text value behind) :
    value = token ∧ behind = rest := by
  obtain ⟨written, readValue, resolved⟩ := denotes_iff.mp denotes
  obtain ⟨⟩ := (valueWithin_of_leaf read text.length).symm.trans readValue
  exact ⟨resolveValue_leaf read resolved, rfl⟩

/-- All values of a schema from a document, the defaults and the supplied arguments, are denoted by
its text, and what a text denotes is what is read and resolved. An integer literal, at the top or
inside another value, denotes the integer of exactly its value and is shown as it is written, if it
is in range and no zero with a minus; otherwise it is read as a float. -/
theorem integers_exact (source : String) (schema : Schema) (parsed : parse source = .ok schema) :
    (∀ site ∈ schema.sites, site ∈ builtInSites ∨ StandsIn source.toList site) ∧
    (∀ text value rest, Denotes text value rest ↔
      ∃ written, Sdl.value text = some (written, rest) ∧ resolveValue written = some value) ∧
    ∀ (literal : IntegerLiteral) (text rest : List Char), literal.StandsAt text rest →
      (literal.IsExact →
        (∀ value behind, Denotes text value behind ↔
          value = .int (Int64.ofInt literal.value) ∧ behind = rest) ∧
        (Int64.ofInt literal.value).toInt = literal.value ∧
        Page.literal (.int (Int64.ofInt literal.value)) =
          .ok (.spanning "int-literal" [.text literal.text])) ∧
      (¬ literal.IsExact → ∃ number, leaf text = some (.float number, rest) ∧
        ∀ value behind, Denotes text value behind → value = .float number ∧ behind = rest) := by
  refine ⟨standsIn_of_parse parsed, fun _ _ _ => denotes_iff, fun literal text rest stands =>
    ⟨fun exact => ⟨fun value behind => ⟨?_, ?_⟩, ?_, ?_⟩, fun inexact => ?_⟩⟩
  · intro denotes
    have read := leaf_integer stands
    rw [IntegerLiteral.value_number exact] at read
    exact eq_of_denotes_leaf read denotes
  · rintro ⟨rfl, rfl⟩
    exact .integer stands exact
  · exact IntegerLiteral.toInt_value exact
  · rw [Page.literal, Page.leaf, IntegerLiteral.write_value exact]
  · obtain ⟨number, float⟩ := IntegerLiteral.value_number_of_not_exact inexact
    have read := leaf_integer stands
    rw [float] at read
    exact ⟨number, read, fun value behind => eq_of_denotes_leaf read⟩

def largestInteger : IntegerLiteral where
  negative := false
  digits := "9223372036854775807".toList
  whole := by decide

def extremeValue : Value :=
  .list [.int (-9223372036854775808), .object [("key", .int 9223372036854775807)]]

theorem isLiteral_extremeValue : IsLiteral IsFree extremeValue := by
  have key : IsName "key" := by decide
  refine .list ?_
  simp only [List.forall_mem_cons, List.not_mem_nil, false_imp_iff, implies_true, and_true]
  exact ⟨.int _, .object (by decide) (by simpa using key) (by simpa using .int _)⟩

/-- A document in which the largest integer stands in an object in a list. -/
theorem integers_exact_extreme :
    (∃ schema, parse (String.ofList (declaring extremeValue.write)) = .ok schema ∧
      ∀ site ∈ schema.sites, site ∈ builtInSites ∨
        StandsIn (String.ofList (declaring extremeValue.write)).toList site) ∧
    ∀ value behind, Denotes " 9223372036854775807\x7d]".toList value behind ↔
      value = .int 9223372036854775807 ∧ behind = "\x7d]".toList := by
  have stands : largestInteger.StandsAt " 9223372036854775807\x7d]".toList "\x7d]".toList :=
    ⟨rfl, ⟨.inr fun _ here => by cases here; rfl, rfl, rfl⟩⟩
  have exact : largestInteger.IsExact := ⟨by decide, by decide, by decide⟩
  have literal := isLiteral_extremeValue
  obtain ⟨schema, _, parsed, _⟩ := parse_declaring
    (defaultValue_write literal endsToken_behindDefault) (resolveValue_literal literal)
  obtain ⟨sites, -, integers⟩ := integers_exact _ schema parsed
  exact ⟨⟨schema, parsed, sites⟩, ((integers _ _ _ stands).1 exact).1⟩

/-- A zero with a minus is in range, but it is loaded as a float. -/
theorem not_integers_exact_negativeZero :
    ∃ literal : IntegerLiteral, literal.value = 0 ∧
      literal.StandsAt (literal.text ++ behindDefault) behindDefault ∧
      leaf (literal.text ++ behindDefault) = some (.float (.zero true), behindDefault) ∧
      ∃ schema definition, parse (String.ofList (declaring literal.text)) = .ok schema ∧
        schema.directive? "a" = some definition ∧
        definition.arguments = [declaredArgument (.float (.zero true))] := by
  have read : defaultValue ('=' :: ' ' :: ("-0".toList ++ behindDefault)) =
      some (.float (.zero true), behindDefault) := rfl
  refine ⟨⟨true, ['0'], .inl rfl⟩, rfl, ⟨rfl, ⟨.inl rfl, rfl, rfl⟩⟩, rfl, ?_⟩
  exact parse_declaring read rfl

end Sdl

end GraphqlReference
