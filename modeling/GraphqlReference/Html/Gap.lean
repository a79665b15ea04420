import GraphqlReference.Html.Piece
import GraphqlReference.Text.Lines

namespace GraphqlReference.Html

/-!
Gaps are what stands between the end of one tag and the beginning of the next and consists of
blanks and non-breaking spaces only. No gap overlaps another one, so each can be treated by itself,
from the end of the text to its beginning.
-/

def beginsTag : List Char → Bool
  | '<' :: _ => true
  | _ => false

/-- What follows the end of a tag, without the blanks that lead to the next tag. -/
def dropBlankGap (behind : List Char) : List Char :=
  let next := behind.dropWhile Text.isBlank
  if beginsTag next then next else behind

/-- The text without its gaps of nothing but blanks. -/
def dropBlankGaps (text : List Char) : List Char :=
  text.foldr (fun c behind => if c = '>' then c :: dropBlankGap behind else c :: behind) []

/-- What follows the blanks and non-breaking spaces at the beginning of a text, and whether there
are any non-breaking spaces among them. -/
def skipFiller : List Char → Bool × List Char
  | [] => (false, [])
  | '&' :: 'n' :: 'b' :: 's' :: 'p' :: ';' :: rest => (true, (skipFiller rest).2)
  | c :: rest => if Text.isBlank c then skipFiller rest else (false, c :: rest)

/-- What follows the end of a tag, with one non-breaking space for all that lead to the next. -/
def mergeSpacerGap (behind : List Char) : List Char :=
  match skipFiller behind with
  | (true, next) => if beginsTag next then Piece.spacer.write ++ next else behind
  | (false, _) => behind

/-- The text with each gap that holds a non-breaking space reduced to one such space. -/
def mergeSpacerGaps (text : List Char) : List Char :=
  text.foldr (fun c behind => if c = '>' then c :: mergeSpacerGap behind else c :: behind) []

/-- A text that may begin with an empty line, and then begins with a blank one. -/
def fillFirstLine (text : List Char) : List Char :=
  match Fragment.emptyLine.write.isPrefixOf? text with
  | some behind => Fragment.blankLine.write ++ behind
  | none => text

/-- The text with a non-breaking space in each empty line, which keeps its height. -/
def fillEmptyLines (text : List Char) : List Char :=
  text.foldr (fun c behind => fillFirstLine (c :: behind)) []

/-- The text with neither blanks nor repeated non-breaking spaces between tags. -/
def closeGaps (text : List Char) : List Char :=
  mergeSpacerGaps (dropBlankGaps text)

/-- The text as it stands in a finished document. -/
def normalize (text : List Char) : List Char :=
  fillEmptyLines (closeGaps text)

end GraphqlReference.Html
