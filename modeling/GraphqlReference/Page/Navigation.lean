import GraphqlReference.Config
import GraphqlReference.Html.Gap
import GraphqlReference.Page.Link
import GraphqlReference.Schema.Error

namespace GraphqlReference.Page

/-!
The floating buttons of a page. One leads to the top, and the others to the root types that the text
of the first section links.
-/

open Html

/-- The text of the markup in front of the target of a root type. -/
def rootLinkHead (operation : Operation) : List Char :=
  Fragment.write (Fragment.span "field-name" operation.keyword ++ Fragment.span "colon" ":" ++
    [.spacer]) ++ "<a class=\"field-type\" href=\"#".toList

/-- A root type that is linked from a text. -/
structure RootLink where
  operation : Operation
  target : List Char
  deriving DecidableEq, Repr

/-- The text of a link up to the quotation mark that ends its target. -/
def RootLink.text (link : RootLink) : List Char :=
  rootLinkHead link.operation ++ link.target ++ ['"']

/-- The target of a link, which is a text that a quotation mark ends and that is not empty. -/
def quotedTarget? (text : List Char) : Option (List Char) :=
  let target := text.takeWhile (· ≠ '"')
  if target.isEmpty || target.length == text.length then none else some target

/-- The markup in front of each target, with the operation that it tells. -/
def rootLinkHeads : List (Operation × List Char) :=
  [Operation.query, .mutation, .subscription].map fun operation =>
    (operation, rootLinkHead operation)

/-- The linked root type at the beginning of a text. -/
def rootLink? (text : List Char) : Option RootLink :=
  rootLinkHeads.findSome? fun (operation, head) => do
    let rest ← head.isPrefixOf? text
    let target ← quotedTarget? rest
    some ⟨operation, target⟩

/-- The linked root types in a text behind the given number of characters. The search goes on
behind the text of each link, so no part of a text counts twice. -/
def rootLinksBehind : Nat → List Char → List RootLink
  | _, [] => []
  | passed + 1, _ :: rest => rootLinksBehind passed rest
  | 0, c :: rest =>
    match rootLink? (c :: rest) with
    | some link => link :: rootLinksBehind (link.text.length - 1) rest
    | none => rootLinksBehind 0 rest

def rootLinks (text : List Char) : List RootLink :=
  rootLinksBehind 0 text

/-- The texts of the button for an operation. -/
def operationTexts (texts : NavigationTexts) : Operation → ButtonText
  | .query => texts.query
  | .mutation => texts.mutation
  | .subscription => texts.subscription

def button (text : ButtonText) (target : String) : Fragment :=
  .link "floating-button" (some target) text.caption [.text text.label.toList]

/-- The button for a linked root type. The target is taken as it stands in the text. -/
def rootButton (texts : NavigationTexts) (link : RootLink) : Fragment :=
  button (operationTexts texts link.operation) (String.ofList link.target)

/-- The buttons for the text of a first section. -/
def navigationPanel (texts : NavigationTexts) (firstSection : List Char) : Fragment :=
  Fragment.division "floating-container"
    (button texts.top schemaAnchor ++
      (rootLinks (closeGaps firstSection)).flatMap (rootButton texts))

end GraphqlReference.Page
