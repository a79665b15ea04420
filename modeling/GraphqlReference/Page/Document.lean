import GraphqlReference.Page.Navigation
import GraphqlReference.Page.Order

namespace GraphqlReference.Page

open Html

/-- The texts of all sections in their order. -/
def fragments (schema : Schema) (config : Config) : Except RenderError (List (List Char)) := do
  let sections ← sections schema config.includeBuiltIns
  .ok (sections.map Section.render)

/-- Sections behind the navigation panel, with empty lines between them and without gaps. -/
def assemble (texts : NavigationTexts) (fragments : List (List Char)) : List Char :=
  let first := fragments.head?.getD []
  normalize ((navigationPanel texts first).write ++
    Fragment.emptyLine.write.intercalate fragments)

/-- A line of a page, ended by a line feed. -/
def pageLine (parts : List (List Char)) : List Char :=
  parts.flatten ++ ['\n']

/-- A complete page around a document. -/
def page (config : Config) (document : List Char) : List Char :=
  let stylesheet (reference : String) : List Char :=
    pageLine ["  <link rel=\"stylesheet\" href=\"".toList, escape reference.toList, "\">".toList]
  pageLine ["<!DOCTYPE html>".toList] ++
    pageLine ["<html lang=\"en\">".toList] ++
    pageLine ["<head>".toList] ++
    pageLine ["  <meta charset=\"UTF-8\">".toList] ++
    pageLine
      ["  <meta name=\"viewport\" content=\"width=device-width, initial-scale=1.0\">".toList] ++
    pageLine ["  <title>".toList, escape config.title.toList, "</title>".toList] ++
    config.stylesheets.flatMap stylesheet ++
    pageLine ["</head>".toList] ++
    pageLine ["<body>".toList] ++
    pageLine ["<main class=\"graphql-schema\">".toList, document, "</main>".toList] ++
    pageLine ["</body>".toList] ++
    pageLine ["</html>".toList]

/-- The document about a schema. -/
def render (schema : Schema) (config : Config) : Except RenderError (List Char) := do
  let fragments ← fragments schema config
  let document := assemble config.navigation fragments
  .ok (if config.standalone then page config document else document)

end GraphqlReference.Page
