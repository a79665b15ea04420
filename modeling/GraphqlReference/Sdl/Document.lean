import GraphqlReference.Schema.Builder
import GraphqlReference.Sdl.Grammar
import GraphqlReference.Sdl.Resolution
import GraphqlReference.Text.Lines
import GraphqlReference.Text.Position

namespace GraphqlReference.Sdl

/-- What follows the last closing parenthesis, or the whole text if there is none. -/
def afterLastParenthesis (text : List Char) : List Char :=
  (text.reverse.takeWhile (· ≠ ')')).reverse

/-- Whether one of the words on the lines of a text, each read up to a number sign, is the keyword
for repeatable directives. -/
def mentionsRepeatable (text : List Char) : Bool :=
  (Text.lines text).any fun line =>
    (Text.words (line.takeWhile (· ≠ '#'))).contains "repeatable".toList

/-- Whether the definition of a directive mentions the keyword, given the positions of its name and
its first location. Positions are looked up as byte offsets; where the text between them cannot be
cut out, nothing is mentioned. -/
def declaresRepeatable (source : List Char) (name : List Char)
    (namePosition locationPosition : Text.Position) : Bool :=
  let between? := do
    let first ← namePosition.byteOffset? source
    let last ← locationPosition.byteOffset? source
    Text.byteSlice? source (first + Text.utf8Size name) last
  match between? with
  | some between => mentionsRepeatable (afterLastParenthesis between)
  | none => false

/-- A schema block, which defines the schema or extends it. -/
structure SchemaBlock where
  extending : Bool
  roots : Roots
  usages : List DirectiveUsage
  deriving Repr

/-- A definition of a document. -/
inductive Definition where
  | schema (block : SchemaBlock)
  | type (definition : TypeDefinition)
  | extension (extension : TypeDefinition)
  | directive (definition : DirectiveDefinition)
  deriving Repr

/-- The roots that a schema block names, each operation at most once. -/
def collectRoots (roots : Roots) : List (Operation × String) → Except SchemaError Roots
  | [] => .ok roots
  | (operation, name) :: rest =>
    if (roots.get operation).isSome then .error (.repeatedRoot operation)
    else collectRoots (roots.set operation name) rest

/-- A schema block of the given contents. One that defines the schema names the root of queries. -/
def schemaBlock (extending : Bool) (usages : List DirectiveUsage)
    (roots : List (Operation × String)) : Except SchemaError SchemaBlock := do
  let roots ← collectRoots .empty roots
  if !extending && roots.query.isNone then .error .missingQueryRoot
  else .ok { extending, roots, usages }

/-- The position in a text that leaves the given number of characters. -/
def positionBefore (source : List Char) (remaining : Nat) : Text.Position :=
  .after (source.take (source.length - remaining))

/-- The definition that a written one stands for. -/
def WrittenDefinition.resolve (source : List Char) :
    WrittenDefinition → Except SchemaError Definition
  | .schema extending usages roots =>
    match resolveUsages usages with
    | none => .error .malformed
    | some usages => (schemaBlock extending usages roots).map .schema
  | .type extending definition =>
    match resolveType definition with
    | none => .error .malformed
    | some definition => .ok (if extending then .extension definition else .type definition)
  | .directive definition places =>
    match definition.arguments.mapM resolveArgument with
    | none => .error .malformed
    | some arguments =>
      let repeatable := declaresRepeatable source definition.name.toList
        (positionBefore source places.name) (positionBefore source places.location)
      .ok (.directive { definition with arguments, repeatable })

/-- The definitions of a schema document in their order. -/
def readDocument (source : List Char) : Except SchemaError (List Definition) :=
  match definitions? source with
  | none => .error .malformed
  | some written => written.mapM (WrittenDefinition.resolve source)

/-- A schema block names roots, with which roots become explicit, and usages. A root named later
replaces one named before. -/
def SchemaBlock.apply (block : SchemaBlock) (builder : SchemaBuilder) : SchemaBuilder :=
  { builder with
    explicitRoots := true
    roots := builder.roots.override block.roots
    usages := builder.usages ++ block.usages }

/-- Takes up a definition; extensions are left for later. -/
def declare (builder : SchemaBuilder) : Definition → Except SchemaError SchemaBuilder
  | .schema block => .ok (block.apply builder)
  | .type definition => builder.addType definition
  | .extension _ => .ok builder
  | .directive definition => builder.addDirective definition

def Definition.extension? : Definition → Option TypeDefinition
  | .extension definition => some definition
  | _ => none

/-- The schema builder that has taken up all definitions. -/
def collect (definitions : List Definition) : Except SchemaError SchemaBuilder := do
  let declared ← definitions.foldlM declare .new
  (definitions.filterMap Definition.extension?).foldlM SchemaBuilder.extendType declared

/-- The schema that a list of definitions describes. -/
def load (definitions : List Definition) : Except SchemaError Schema := do
  let builder ← collect definitions
  builder.build

/-- The schema that a document describes. -/
def parse (source : String) : Except SchemaError Schema := do
  let definitions ← readDocument source.toList
  load definitions

end GraphqlReference.Sdl
