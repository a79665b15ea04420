import GraphqlReference.Html.Markup

namespace GraphqlReference.Html

/-!
The pieces that the markup of a page consists of. Text stays unescaped until it is written, so
that no piece can be mistaken for another.
-/

/-- A text with every occurrence of one character replaced. -/
def replaceChar (old : Char) (new : List Char) (text : List Char) : List Char :=
  text.flatMap fun c => if c = old then new else [c]

/-- A text with its markup characters replaced by entities. The ampersand goes first, so that no
later replacement meets an ampersand of the text. -/
def escape (text : List Char) : List Char :=
  let text := replaceChar '&' "&amp;".toList text
  let text := replaceChar '<' "&lt;".toList text
  let text := replaceChar '>' "&gt;".toList text
  replaceChar '"' "&quot;".toList text

inductive Element where
  | region
  | division
  | span
  | anchor
  deriving DecidableEq, Repr

def Element.tag : Element → String
  | region => "section"
  | division => "div"
  | span => "span"
  | anchor => "a"

inductive Attribute where
  | style (name : String)
  | identity (name : String)
  | target (name : String)
  | title (text : String)
  deriving DecidableEq, Repr

/-- The attribute with the space in front of it. The name of a style is written as it is. -/
def Attribute.write : Attribute → List Char
  | style name => " class=\"".toList ++ name.toList ++ ['"']
  | identity name => " id=\"".toList ++ escape name.toList ++ ['"']
  | target name => " href=\"#".toList ++ escape name.toList ++ ['"']
  | title text => " title=\"".toList ++ escape text.toList ++ ['"']

/-- A tag, a text, a number of quotation marks that stay as they are, or a non-breaking space. -/
inductive Piece where
  | opening (element : Element) (attributes : List Attribute)
  | closing (element : Element)
  | text (content : List Char)
  | quotes (count : Nat)
  | spacer
  deriving DecidableEq, Repr

abbrev Fragment := List Piece

namespace Piece

def write : Piece → List Char
  | opening element attributes =>
    '<' :: element.tag.toList ++ attributes.flatMap Attribute.write ++ ['>']
  | closing element => '<' :: '/' :: element.tag.toList ++ ['>']
  | text content => escape content
  | quotes count => List.replicate count '"'
  | spacer => "&nbsp;".toList

end Piece

namespace Fragment

def write (fragment : Fragment) : List Char :=
  fragment.flatMap Piece.write

/-- Content inside a span of the given style. -/
def spanning (style : String) (content : Fragment) : Fragment :=
  .opening .span [.style style] :: content ++ [.closing .span]

/-- A text inside a span of the given style. -/
def span (style : String) (text : String) : Fragment :=
  spanning style [.text text.toList]

/-- Content inside a division of the given style. -/
def division (style : String) (content : Fragment) : Fragment :=
  .opening .division [.style style] :: content ++ [.closing .division]

/-- An anchor of the given style around content. Without a target it leads nowhere. -/
def link (style : String) (target : Option String) (title : String) (content : Fragment) :
    Fragment :=
  .opening .anchor (.style style :: target.toList.map .target ++ [.title title]) ::
    content ++ [.closing .anchor]

/-- Fragments with a separator between neighbours. -/
def join (separator : Fragment) : List Fragment → Fragment
  | [] => []
  | [last] => last
  | first :: rest => first ++ separator ++ join separator rest

/-- A line of the page. -/
def line (content : Fragment) : Fragment :=
  division "line" content

/-- The line between two members that keeps them apart. -/
def emptyLine : Fragment :=
  line []

/-- A line that shows nothing and keeps its height. -/
def blankLine : Fragment :=
  line [.spacer]

end Fragment

theorem inline_span (style text : String) :
    Markup.inline (Fragment.span style text) = [.inline (Fragment.span style text)] :=
  rfl

theorem inline_line (content : Fragment) :
    Markup.inline (Fragment.line content) = [.inline (Fragment.line content)] :=
  rfl

/-- The markup of a part of the page. -/
abbrev Section := Markup Piece

/-- The text of a section, one token on each line. -/
def Section.render (markup : Section) : List Char :=
  (Markup.write Piece.write markup).render

end GraphqlReference.Html
