import GraphqlReference.Page.Declaration

namespace GraphqlReference.Page

/-- A declaration with a section of its own. -/
inductive Declaration where
  | type (definition : TypeDefinition)
  | directive (definition : DirectiveDefinition)
  deriving Repr

namespace Declaration

def name : Declaration → String
  | type definition => definition.name
  | directive definition => definition.name

def keyword : Declaration → String
  | type definition => definition.kind.keyword
  | directive _ => "directive"

def anchor : Declaration → String
  | type definition => typeAnchor definition.name
  | directive definition => directiveAnchor definition.name

def isBuiltIn : Declaration → Bool
  | type definition => definition.isBuiltIn
  | directive definition => definition.isBuiltIn

end Declaration

/-- The place of a kind among the kinds. -/
def kindRank : TypeKind → Nat
  | .interface => 0
  | .object => 1
  | .union => 2
  | .inputObject => 3
  | .scalar => 4
  | .enum => 5

/-- Types are in order of kind, those of one kind in order of name. Names compare by the code points
of their characters, which is also the order of their bytes in UTF-8. -/
def typeBefore (first second : TypeDefinition) : Bool :=
  kindRank first.kind < kindRank second.kind ||
    (kindRank first.kind == kindRank second.kind && first.name ≤ second.name)

def directiveBefore (first second : DirectiveDefinition) : Bool :=
  first.name ≤ second.name

/-- The declarations of a page: all types and behind them all directives, with or without the
built-in ones. -/
def declarations (schema : Schema) (includeBuiltIns : Bool) : List Declaration :=
  let types := (schema.types.mergeSort typeBefore).map Declaration.type
  let directives := (schema.directives.mergeSort directiveBefore).map Declaration.directive
  (types ++ directives).filter fun declaration => includeBuiltIns || !declaration.isBuiltIn

/-- The anchors of all sections in their order. -/
def anchors (schema : Schema) (includeBuiltIns : Bool) : List String :=
  schemaAnchor :: (declarations schema includeBuiltIns).map Declaration.anchor

/-- The section about a declaration. -/
def declarationSection (schema : Schema) : Declaration → Except RenderError Html.Section
  | .type definition => typeSection schema definition
  | .directive definition => directiveSection schema definition

/-- All sections of a page in their order. -/
def sections (schema : Schema) (includeBuiltIns : Bool) :
    Except RenderError (List Html.Section) := do
  let first ← schemaSection schema
  let more ← (declarations schema includeBuiltIns).mapM (declarationSection schema)
  .ok (first :: more)

end GraphqlReference.Page
