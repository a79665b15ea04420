import GraphqlReference.Proofs.Sdl.Literals
import GraphqlReference.Sdl.Document

namespace GraphqlReference.Sdl

open Text

/-- What follows the default in the document. -/
def behindDefault : List Char :=
  ") on OBJECT type Query".toList

/-- A document that declares a directive whose argument has a literal for its default. -/
def declaring (literal : List Char) : List Char :=
  "directive @a(x: T = ".toList ++ (literal ++ behindDefault)

def declaredArgument (value : Value) : Argument :=
  ⟨"x", none, .named "T", some value, []⟩

section

variable {value : Value} {literal : List Char}

theorem argument_declaring
    (read : defaultValue ('=' :: ' ' :: (literal ++ behindDefault)) = some (value, behindDefault)) :
    argument ("x: T = ".toList ++ (literal ++ behindDefault)) =
      some (declaredArgument value, behindDefault) := by
  have name : name ("x: T = ".toList ++ (literal ++ behindDefault)) =
      some ("x", ": T = ".toList ++ (literal ++ behindDefault)) := rfl
  have colon : keyword ":" (": T = ".toList ++ (literal ++ behindDefault)) =
      some ((), " T = ".toList ++ (literal ++ behindDefault)) := rfl
  have type : typeRef (" T = ".toList ++ (literal ++ behindDefault)) =
      some (.named "T", " = ".toList ++ (literal ++ behindDefault)) := rfl
  have equals : defaultValue (" = ".toList ++ (literal ++ behindDefault)) =
      defaultValue ('=' :: ' ' :: (literal ++ behindDefault)) := rfl
  have default : optional defaultValue (" = ".toList ++ (literal ++ behindDefault)) =
      (some value, behindDefault) := by
    rw [Text.optional, equals, read]
  have usages : many usage behindDefault = ([], behindDefault) := rfl
  have description : optional string ("x: T = ".toList ++ (literal ++ behindDefault)) =
      (none, "x: T = ".toList ++ (literal ++ behindDefault)) := rfl
  simp only [argument, description, name, colon, type, default, usages, Option.bind_eq_bind,
    Option.bind_some, declaredArgument]

end

section

variable {text : List Char} {argument : Argument}

theorem arguments_declaring
    (read : Sdl.argument (text ++ behindDefault) = some (argument, behindDefault)) :
    arguments ('(' :: (text ++ behindDefault)) =
      ([argument], " on OBJECT type Query".toList) := by
  have opened : keyword "(" ('(' :: (text ++ behindDefault)) = some ((), text ++ behindDefault) :=
    rfl
  have others : many Sdl.argument behindDefault = ([], behindDefault) := rfl
  have closed : keyword ")" behindDefault = some ((), " on OBJECT type Query".toList) := rfl
  simp only [arguments, Text.optional, enclosed, opened, some1, read, others, closed,
    Option.bind_eq_bind, Option.bind_some, Option.getD_some]

theorem directiveDefinition_of_parts {text start mark atName behindName behindArguments
      behindKeyword atLocations rest : List Char} {description : Option String} {named : String}
    {list : List Argument} {repeatable : Option Unit} {locations : List DirectiveLocation}
    (described : optional string text = (description, start))
    (directive : keyword "directive" start = some ((), mark))
    (sign : keyword "@" mark = some ((), atName)) (name : name atName = some (named, behindName))
    (arguments : arguments behindName = (list, behindArguments))
    (keyed : optional (keyword "repeatable") behindArguments = (repeatable, behindKeyword))
    (preposition : keyword "on" behindKeyword = some ((), atLocations))
    (located : separated "|" location atLocations = some (locations, rest)) :
    ∃ places, directiveDefinition text = some
      (.directive ⟨named, description, .user, list, repeatable.isSome, locations⟩ places,
        rest) := by
  simp only [directiveDefinition, described, directive, sign, name, arguments, keyed, preposition,
    located, Option.bind_eq_bind, Option.bind_some]
  exact ⟨_, rfl⟩

/-- A document that declares a directive with this text for its argument. -/
def declaringArgument (text : List Char) : List Char :=
  "directive @a(".toList ++ (text ++ behindDefault)

theorem directiveDefinition_declaring
    (read : Sdl.argument (text ++ behindDefault) = some (argument, behindDefault)) :
    ∃ places, directiveDefinition (declaringArgument text) = some
      (.directive ⟨"a", none, .user, [argument], false, [.object]⟩ places,
        " type Query".toList) := by
  have description : optional string (declaringArgument text) = (none, declaringArgument text) :=
    rfl
  have directive : keyword "directive" (declaringArgument text) =
      some ((), " @a(".toList ++ (text ++ behindDefault)) := rfl
  have sign : keyword "@" (" @a(".toList ++ (text ++ behindDefault)) =
      some ((), "a(".toList ++ (text ++ behindDefault)) := rfl
  have name : name ("a(".toList ++ (text ++ behindDefault)) =
      some ("a", '(' :: (text ++ behindDefault)) := rfl
  have repeatable : optional (keyword "repeatable") " on OBJECT type Query".toList =
      (none, " on OBJECT type Query".toList) := rfl
  have preposition : keyword "on" " on OBJECT type Query".toList =
      some ((), " OBJECT type Query".toList) := rfl
  have locations : separated "|" location " OBJECT type Query".toList =
      some ([.object], " type Query".toList) := rfl
  exact directiveDefinition_of_parts description directive sign name (arguments_declaring read)
    repeatable preposition locations

theorem definition_declaring (text : List Char) :
    definition (declaringArgument text) = directiveDefinition (declaringArgument text) := by
  have schema : schemaDefinition (declaringArgument text) = none := rfl
  have extension : schemaExtension (declaringArgument text) = none := rfl
  have types : typeKinds.findSome? (fun kind => typeDefinition kind (declaringArgument text) <|>
      typeExtension kind (declaringArgument text)) = none := rfl
  rw [definition, schema, extension, types]
  simp

theorem definitions_declaring
    (read : Sdl.argument (text ++ behindDefault) = some (argument, behindDefault)) :
    ∃ places, definitions? (declaringArgument text) = some
      [.directive ⟨"a", none, .user, [argument], false, [.object]⟩ places,
        .type false ⟨"Query", none, .user, [], .object [] []⟩] := by
  obtain ⟨places, read⟩ := directiveDefinition_declaring read
  rw [← definition_declaring] at read
  have last : many definition " type Query".toList =
      ([.type false ⟨"Query", none, .user, [], .object [] []⟩], []) := rfl
  refine ⟨places, ?_⟩
  rw [definitions?, some1_of_many read last]
  rfl

theorem readDocument_declaring
    (read : Sdl.argument (text ++ behindDefault) = some (argument, behindDefault))
    {resolved : Argument} (resolves : resolveArgument argument = some resolved) :
    ∃ repeatable, readDocument (declaringArgument text) = .ok
      [.directive ⟨"a", none, .user, [resolved], repeatable, [.object]⟩,
        .type ⟨"Query", none, .user, [], .object [] []⟩] := by
  obtain ⟨places, written⟩ := definitions_declaring read
  have arguments : [argument].mapM resolveArgument = some [resolved] := by simp [resolves]
  rw [readDocument, written]
  simp only [List.mapM_cons, List.mapM_nil, WrittenDefinition.resolve, arguments]
  exact ⟨_, rfl⟩

theorem load_declaring (list : List Argument) (repeatable : Bool) :
    ∃ schema, load [.directive ⟨"a", none, .user, list, repeatable, [.object]⟩,
        .type ⟨"Query", none, .user, [], .object [] []⟩] = .ok schema ∧
      schema.directive? "a" = some ⟨"a", none, .user, list, repeatable, [.object]⟩ :=
  ⟨_, rfl, rfl⟩

/-- The document describes a schema in which the directive has the argument that the text is read
as. -/
theorem parse_declaringArgument
    (read : Sdl.argument (text ++ behindDefault) = some (argument, behindDefault))
    {resolved : Argument} (resolves : resolveArgument argument = some resolved) :
    ∃ schema definition, parse (String.ofList (declaringArgument text)) = .ok schema ∧
      schema.directive? "a" = some definition ∧ definition.arguments = [resolved] := by
  obtain ⟨repeatable, definitions⟩ := readDocument_declaring read resolves
  obtain ⟨schema, loaded, found⟩ := load_declaring [resolved] repeatable
  refine ⟨schema, _, ?_, found, rfl⟩
  rw [parse, String.toList_ofList, definitions]
  exact loaded

/-- The document describes a schema in which the argument of the directive has the value that the
literal is read as. -/
theorem parse_declaring {value : Value} {literal : List Char}
    (read : defaultValue ('=' :: ' ' :: (literal ++ behindDefault)) = some (value, behindDefault))
    (same : resolveValue value = some value) :
    ∃ schema definition, parse (String.ofList (declaring literal)) = .ok schema ∧
      schema.directive? "a" = some definition ∧
        definition.arguments = [declaredArgument value] := by
  have resolves : resolveArgument (declaredArgument value) = some (declaredArgument value) := by
    simp [declaredArgument, resolveArgument, resolveDefault, same, resolveUsages]
  have split : declaring literal = declaringArgument ("x: T = ".toList ++ literal) := rfl
  rw [split]
  exact parse_declaringArgument (argument_declaring read) resolves

end

theorem endsToken_behindDefault : EndsToken behindDefault :=
  endsToken_cons (by decide) (by decide) (by decide) _

/-- The literal of a value without floats is read as this value where it stands as a default, if no
name of an enum value begins with a reserved word. The fields of objects keep their order. -/
theorem defaultValue_literal {value : Value} (literal : IsLiteral IsFree value) :
    (∀ rest, EndsToken rest →
        defaultValue ('=' :: ' ' :: (value.write ++ rest)) = some (value, rest)) ∧
      resolveDefault (some value) = some (some value) ∧
      ∃ schema definition, parse (String.ofList (declaring value.write)) = .ok schema ∧
        schema.directive? "a" = some definition ∧
          definition.arguments = [declaredArgument value] := by
  have same := resolveValue_literal literal
  refine ⟨fun rest ends => defaultValue_write literal ends, ?_, ?_⟩
  · rw [resolveDefault, same, Option.map_some]
  · exact parse_declaring (defaultValue_write literal endsToken_behindDefault) same

def nestedValue : Value :=
  .object [("key", .list [.string "\"\x7f", .string "", .int (-9223372036854775808)]),
    ("_0", .object [("empty", .list []), ("name", .enum "nil")])]

theorem isLiteral_nestedValue : IsLiteral IsFree nestedValue := by
  have free : IsFree "nil" := by decide
  have nil : IsName "nil" := by decide
  have empty : IsName "empty" := by decide
  have name : IsName "name" := by decide
  have key : IsName "key" := by decide
  have digit : IsName "_0" := by decide
  refine .object (by decide) (by simpa using ⟨key, digit⟩) ?_
  simp only [List.forall_mem_cons, List.not_mem_nil, false_imp_iff, implies_true, and_true]
  refine ⟨.list ?_, .object (by decide) (by simpa using ⟨empty, name⟩) ?_⟩
  · simpa using ⟨.string _, .string _, .int _⟩
  · simpa using ⟨.list (by simp), .enum nil free⟩

theorem defaultValue_literal_nested :
    defaultValue ("= \x7bkey: [\"\\\"\\u007F\", \"\", -9223372036854775808], ".toList ++
      "_0: \x7bempty: [], name: nil\x7d\x7d)".toList) = some (nestedValue, [')']) := by
  have read := (defaultValue_literal isLiteral_nestedValue).1 [')']
    (endsToken_cons (by decide) (by decide) (by decide) [])
  have written : "= \x7bkey: [\"\\\"\\u007F\", \"\", -9223372036854775808], ".toList ++
      "_0: \x7bempty: [], name: nil\x7d\x7d)".toList =
        '=' :: ' ' :: (nestedValue.write ++ [')']) := by decide +kernel
  rw [written, read]

/-- The name of an enum value is cut behind a reserved word that begins it. -/
theorem not_defaultValue_literal :
    IsLiteral (· ∉ reservedWords) (.enum "trueish") ∧
      defaultValue ('=' :: ' ' :: ((Value.enum "trueish").write ++ behindDefault)) =
        some (.boolean true, "ish".toList ++ behindDefault) ∧
      parse (String.ofList (declaring (Value.enum "trueish").write)) = .error .malformed := by
  have named : IsName "trueish" := by decide
  refine ⟨.enum named (by decide), rfl, ?_⟩
  rw [parse, String.toList_ofList]
  rfl

end GraphqlReference.Sdl
