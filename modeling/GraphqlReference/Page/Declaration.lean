import GraphqlReference.Page.Interfaces
import GraphqlReference.Page.Member

namespace GraphqlReference.Page

open Html

/-- A section opens with its anchor and the description of what it is about. -/
def sectionHead (anchor : String) (description : Option String) : Section :=
  .opening [.opening .region [.identity anchor]] :: descriptionBlock description

def sectionEnd : Section :=
  [.closing [.closing .region]]

/-- A keyword that leads to its own section. -/
def selfLink (anchor keyword : String) : Fragment :=
  .opening .anchor [.style "self-link", .target anchor] ::
    Fragment.span "keyword" keyword ++ [.closing .anchor]

theorem inline_selfLink (anchor keyword : String) (behind : Fragment) :
    Markup.inline (selfLink anchor keyword ++ behind) =
      [.inline (selfLink anchor keyword ++ behind)] :=
  rfl

def closingBrace : Fragment :=
  Fragment.line (Fragment.span "bracket-curly" "\x7d")

/-- A line that ends in an opening brace, what the braces hold, and the line that closes them. -/
def braced (head : Fragment) (content : Section) : Section :=
  Markup.inline (Fragment.line (head ++ .spacer :: Fragment.span "bracket-curly" "\x7b")) ++
    .opening [.opening .division [.style "offset-1"]] :: content ++
    .closing [.closing .division] :: Markup.inline closingBrace

/-- What stands between alternatives. -/
def alternativeMark : Fragment :=
  .spacer :: Fragment.span "vertical-line" "|" ++ [.spacer]

/-- What stands between interfaces. -/
def conjunctionMark : Fragment :=
  .spacer :: Fragment.span "ampersand" "&" ++ [.spacer]

/-- The line of a root operation with a link to its type. -/
def rootLine (schema : Schema) (operation : Operation) : Except RenderError Fragment := do
  let target ← match schema.root? operation with
    | some name => namedTypeLink schema "field-type" name
    | none => .ok (Fragment.span "null" "null")
  .ok (Fragment.division "line offset-1"
    (Fragment.span "field-name" operation.keyword ++ Fragment.span "colon" ":" ++
      .spacer :: target))

/-- The section about the schema as a whole. -/
def schemaSection (schema : Schema) : Except RenderError Section := do
  let usages ← usages schema schema.usages
  let query ← rootLine schema .query
  let mutation ← rootLine schema .mutation
  let subscription ← rootLine schema .subscription
  .ok (sectionHead schemaAnchor schema.description ++
    Markup.inline (Fragment.line (selfLink schemaAnchor "schema" ++ usages ++
      .spacer :: Fragment.span "bracket-curly" "\x7b")) ++
    Markup.inline query ++ Markup.inline mutation ++ Markup.inline subscription ++
    Markup.inline closingBrace ++ sectionEnd)

/-- The clause that lists all interfaces a type implements; empty if there are none. -/
def implementsClause (schema : Schema) (interfaces : List String) :
    Except RenderError Fragment := do
  let links ← flattenLinks schema interfaces
  .ok (if links.isEmpty then []
    else .spacer :: Fragment.span "keyword" "implements" ++
      .spacer :: Fragment.join conjunctionMark links)

/-- The clause that lists the members of a union; empty if there are none. -/
def membersClause (schema : Schema) (members : List String) : Except RenderError Fragment := do
  let links ← members.mapM (namedTypeLink schema "union-type")
  .ok (if links.isEmpty then []
    else .spacer :: Fragment.span "equals" "=" ++ .spacer :: Fragment.join alternativeMark links)

/-- What the section of a type shows below its description. -/
def typeContent (schema : Schema) (head usages : Fragment) :
    TypeBody → Except RenderError Section
  | .object interfaces fields | .interface interfaces fields => do
    let clause ← implementsClause schema interfaces
    let shown ← fieldMembers schema fields
    .ok (braced (head ++ clause ++ usages) shown)
  | .inputObject fields => do
    let shown ← argumentMembers schema fields
    .ok (braced (head ++ usages) shown)
  | .enum items => do
    let shown ← enumMembers schema items
    .ok (braced (head ++ usages) shown)
  | .union members => do
    let clause ← membersClause schema members
    .ok (Markup.inline (Fragment.line (head ++ usages ++ clause)))
  | .scalar => .ok (Markup.inline (Fragment.line (head ++ usages)))

/-- The section about a type. -/
def typeSection (schema : Schema) (definition : TypeDefinition) : Except RenderError Section := do
  let anchor := typeAnchor definition.name
  let head := selfLink anchor definition.kind.keyword ++
    .spacer :: Fragment.span "typename" definition.name
  let usages ← usages schema definition.usages
  let content ← typeContent schema head usages definition.body
  .ok (sectionHead anchor definition.description ++ content ++ sectionEnd)

/-- Where a directive may be used, and whether repeatedly. -/
def locationsClause (definition : DirectiveDefinition) : Fragment :=
  (if definition.repeatable then .spacer :: Fragment.span "keyword" "repeatable" else []) ++
    .spacer :: Fragment.span "keyword" "on" ++
    .spacer :: Fragment.join alternativeMark
      (definition.locations.map fun location => Fragment.span "location" location.keyword)

theorem inline_locationsClause (definition : DirectiveDefinition) :
    Markup.inline (locationsClause definition) = [.inline (locationsClause definition)] := by
  unfold locationsClause
  cases definition.repeatable <;> rfl

/-- The section about a directive. -/
def directiveSection (schema : Schema) (definition : DirectiveDefinition) :
    Except RenderError Section := do
  let anchor := directiveAnchor definition.name
  let arguments ← argumentList schema definition.arguments
  .ok (sectionHead anchor definition.description ++
    .opening [.opening .division [.style "line"]] ::
    Markup.inline (selfLink anchor "directive" ++
      .spacer :: Fragment.span "typename" ("@" ++ definition.name)) ++
    arguments ++ Markup.inline (locationsClause definition) ++
    .closing [.closing .division] :: sectionEnd)

end GraphqlReference.Page
