import GraphqlReference.Page.Description
import GraphqlReference.Page.Usage

namespace GraphqlReference.Page

open Html

/-- What stands between two members: an empty line if either of them is described. -/
def separator (before after : Bool) : Section :=
  if before || after then Markup.inline Fragment.emptyLine else []

/-- A member as an item of its own. -/
def item (content : Section) : Section :=
  .opening [.opening .division [.style "item"]] :: content ++ [.closing [.closing .division]]

/-- Further members behind one of which is known whether it is described. -/
def furtherMembers {α : Type} (description : α → Option String)
    (print : α → Except RenderError Section) (described : Bool) :
    List α → Except RenderError Section
  | [] => .ok []
  | member :: rest => do
    let shown ← print member
    let own := isDescribed (description member)
    let more ← furtherMembers description print own rest
    .ok (separator described own ++ item shown ++ more)

/-- Members in their order, each as an item, with separators between them. -/
def members {α : Type} (description : α → Option String) (print : α → Except RenderError Section) :
    List α → Except RenderError Section
  | [] => .ok []
  | member :: rest => do
    let shown ← print member
    let more ← furtherMembers description print (isDescribed (description member)) rest
    .ok (item shown ++ more)

/-- A default value behind its equals sign. -/
def defaultValue : Option Value → Except RenderError Fragment
  | none => .ok []
  | some value => do
    let shown ← literal value
    .ok (.spacer :: Fragment.span "equals" "=" ++
      .spacer :: Fragment.spanning "argument-value" shown)

/-- An argument of a field or directive, or a field of an input object. -/
def argument (schema : Schema) (argument : Argument) : Except RenderError Section := do
  let default ← defaultValue argument.default
  let link ← typeLink schema "argument-type" argument.type
  let usages ← usages schema argument.usages
  .ok (memberDescription argument.description ++
    Markup.inline (Fragment.span "argument-name" argument.name ++ Fragment.span "colon" ":" ++
      .spacer :: link ++ default ++ usages))

def argumentMembers (schema : Schema) (arguments : List Argument) : Except RenderError Section :=
  members Argument.description (argument schema) arguments

/-- The arguments of a field or directive in parentheses; nothing if there are none. -/
def argumentList (schema : Schema) (arguments : List Argument) : Except RenderError Section :=
  if arguments.isEmpty then .ok []
  else do
    let shown ← argumentMembers schema arguments
    .ok (Markup.inline (Fragment.span "bracket-round" "(") ++
      .opening [.opening .division [.style "arguments offset-1"]] :: shown ++
      .closing [.closing .division] :: Markup.inline (Fragment.span "bracket-round" ")"))

def field (schema : Schema) (field : Field) : Except RenderError Section := do
  let arguments ← argumentList schema field.arguments
  let link ← typeLink schema "field-type" field.type
  let usages ← usages schema field.usages
  .ok (memberDescription field.description ++
    Markup.inline (Fragment.span "field-name" field.name) ++ arguments ++
    Markup.inline (Fragment.span "colon" ":" ++ .spacer :: link ++ usages))

def fieldMembers (schema : Schema) (fields : List Field) : Except RenderError Section :=
  members Field.description (field schema) fields

def enumItem (schema : Schema) (item : EnumItem) : Except RenderError Section := do
  let usages ← usages schema item.usages
  .ok (memberDescription item.description ++
    Markup.inline (Fragment.span "enum-item" item.name ++ usages))

def enumMembers (schema : Schema) (items : List EnumItem) : Except RenderError Section :=
  members EnumItem.description (enumItem schema) items

end GraphqlReference.Page
