import GraphqlReference.Html.Piece
import GraphqlReference.Schema.Definition
import GraphqlReference.Text.Lines

namespace GraphqlReference.Page

open Html

/-- One line of a description. A line without content shows nothing but keeps its height. -/
def descriptionLine (piece : List Char) : Fragment :=
  let shown := Text.trimEnd (Text.dropFinalReturn piece)
  if shown.isEmpty then .blankLine else .line [.text shown]

/-- The line that opens or closes a block. -/
def blockDelimiter : Fragment :=
  .line [.quotes 3]

/-- The block of a text that is not empty. -/
def textBlock (text : List Char) : Section :=
  .opening [.opening .division [.style "description"]] :: Markup.inline blockDelimiter ++
    (Text.lineFeedPieces text).flatMap (fun piece => Markup.inline (descriptionLine piece)) ++
    Markup.inline blockDelimiter ++ [.closing [.closing .division]]

/-- A description as a block; nothing when it is absent or empty. -/
def descriptionBlock (description : Option String) : Section :=
  match description with
  | none => []
  | some text => if text.isEmpty then [] else textBlock text.toList

def hasLineBreak (text : List Char) : Bool :=
  text.any fun c => c == '\n' || c == '\r'

/-- The description of a member: a quoted line, or a block if it has line breaks. -/
def memberDescription (description : Option String) : Section :=
  match description with
  | none => []
  | some text =>
    if text.isEmpty then []
    else if hasLineBreak text.toList then textBlock text.toList
    else
      Markup.inline
        (Fragment.division "description" (.line [.quotes 1, .text text.toList, .quotes 1]))

end GraphqlReference.Page
