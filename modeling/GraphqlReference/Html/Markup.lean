namespace GraphqlReference.Html

/-!
Markup as a sequence of tokens, each of them a stretch of content that stays on one line. The
content is text or anything that can be written as text.
-/

/-- An opening tag, a closing tag, or a fragment that closes whatever it opens. -/
inductive Token (α : Type) where
  | opening (content : List α)
  | closing (content : List α)
  | inline (content : List α)
  deriving DecidableEq, Repr

namespace Token

variable {α β : Type}

def content : Token α → List α
  | opening content | closing content | inline content => content

/-- The token whose content is written out piece by piece. -/
def write (writePiece : α → List β) : Token α → Token β
  | opening content => opening (content.flatMap writePiece)
  | closing content => closing (content.flatMap writePiece)
  | inline content => inline (content.flatMap writePiece)

/-- The depth at which a token stands, after tokens that leave this depth open. -/
def depth (around : Nat) : Token α → Nat
  | closing _ => around - 1
  | _ => around

/-- The depth that a token standing at this depth leaves open. -/
def depthAfter (own : Nat) : Token α → Nat
  | opening _ => own + 1
  | _ => own

end Token

abbrev Markup (α : Type) := List (Token α)

namespace Markup

variable {α β : Type}

/-- Inline content; nothing at all when it is empty. -/
def inline : List α → Markup α
  | [] => []
  | piece :: rest => [.inline (piece :: rest)]

def write (writePiece : α → List β) (markup : Markup α) : Markup β :=
  markup.map (Token.write writePiece)

/-- The lines of the tokens that follow an open depth. A line end precedes every token that does
not come first in the text; `started` tells whether there is any text yet. -/
def renderFrom (depth : Nat) (started : Bool) : Markup Char → List Char
  | [] => []
  | token :: rest =>
    let own := token.depth depth
    let line := List.replicate (2 * own) ' ' ++ token.content
    (if started then ['\n'] else []) ++ line ++
      renderFrom (token.depthAfter own) (started || !line.isEmpty) rest

/-- One token on each line, indented by two spaces for each open tag around it. -/
def render (markup : Markup Char) : List Char :=
  renderFrom 0 false markup

end Markup

end GraphqlReference.Html
