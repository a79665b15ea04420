import GraphqlReference.Config
import GraphqlReference.Toml.Document

namespace GraphqlReference.Config

def text? : Toml.Value → Option String
  | .string text => some text
  | _ => none

def flag? : Toml.Value → Option Bool
  | .boolean value => some value
  | _ => none

def texts? : Toml.Value → Option (List String)
  | .array items => items.mapM text?
  | _ => none

/-- The texts of the buttons one by one, in the order in which they may be listed without names. -/
inductive ButtonOption where
  | topLabel
  | topCaption
  | queryLabel
  | queryCaption
  | mutationLabel
  | mutationCaption
  | subscriptionLabel
  | subscriptionCaption
  deriving DecidableEq, Repr

namespace ButtonOption

def all : List ButtonOption :=
  [ topLabel, topCaption, queryLabel, queryCaption, mutationLabel, mutationCaption
  , subscriptionLabel, subscriptionCaption ]

def key : ButtonOption → String
  | topLabel => "top_label"
  | topCaption => "top_caption"
  | queryLabel => "query_label"
  | queryCaption => "query_caption"
  | mutationLabel => "mutation_label"
  | mutationCaption => "mutation_caption"
  | subscriptionLabel => "subscription_label"
  | subscriptionCaption => "subscription_caption"

def set (option : ButtonOption) (text : String) (texts : NavigationTexts) : NavigationTexts :=
  match option with
  | topLabel => { texts with top.label := text }
  | topCaption => { texts with top.caption := text }
  | queryLabel => { texts with query.label := text }
  | queryCaption => { texts with query.caption := text }
  | mutationLabel => { texts with mutation.label := text }
  | mutationCaption => { texts with mutation.caption := text }
  | subscriptionLabel => { texts with subscription.label := text }
  | subscriptionCaption => { texts with subscription.caption := text }

end ButtonOption

/-- Changes one text of the buttons, which is given by its key. -/
def setButton (texts : NavigationTexts) (entry : String × Toml.Value) : Option NavigationTexts := do
  let option ← ButtonOption.all.find? (·.key == entry.1)
  let text ← text? entry.2
  some (option.set text texts)

/-- The texts of the buttons, from a table or from a list without names. What is missing keeps its
default, and what a list holds beyond the last text does not matter. -/
def navigation? : Toml.Value → Option NavigationTexts
  | .table entries => entries.foldlM setButton .default
  | .array items =>
    (ButtonOption.all.zip items).foldlM
      (fun texts entry => (text? entry.2).map fun text => entry.1.set text texts) .default
  | _ => none

/-- Changes one option, which is given by its key. -/
def setOption (config : Config) (entry : String × Toml.Value) : Option Config :=
  match entry.1 with
  | "title" => (text? entry.2).map fun title => { config with title }
  | "standalone" => (flag? entry.2).map fun standalone => { config with standalone }
  | "stylesheets" => (texts? entry.2).map fun stylesheets => { config with stylesheets }
  | "include_builtins" =>
    (flag? entry.2).map fun includeBuiltIns => { config with includeBuiltIns }
  | "navigation" => (navigation? entry.2).map fun navigation => { config with navigation }
  | _ => none

/-- The options that a configuration file gives; those it leaves out keep their defaults. Nothing,
if the file is no document or names something that is no option. -/
def decode? (source : String) : Option Config := do
  let entries ← Toml.document? source.toList
  entries.foldlM setOption .default

end GraphqlReference.Config
