import GraphqlReference.Page.Link
import GraphqlReference.Page.Literal

namespace GraphqlReference.Page

open Html

/-- Whether a value is the declared default of an argument, up to the order of object fields. -/
def isDeclaredDefault (argument : Argument) (value : Value) : Bool :=
  match argument.default with
  | some default => default.sameAs value
  | none => false

/-- A supplied argument. -/
def suppliedArgument (name : String) (value : Value) : Except RenderError Fragment := do
  let shown ← literal value
  .ok (Fragment.span "directive-usage-name" name ++ Fragment.span "colon" ":" ++
    .spacer :: Fragment.spanning "directive-usage-value" shown)

/-- The supplied arguments that differ from their declared defaults, in the order of supply. All of
them have to be declared. -/
def suppliedArguments (definition : DirectiveDefinition) :
    List (String × Value) → Except RenderError (List Fragment)
  | [] => .ok []
  | (name, value) :: rest =>
    match definition.argument? name with
    | none => .error (.unknownArgument definition.name name)
    | some argument =>
      if isDeclaredDefault argument value then suppliedArguments definition rest
      else do
        let shown ← suppliedArgument name value
        let more ← suppliedArguments definition rest
        .ok (shown :: more)

/-- Arguments in parentheses; nothing if there are none. -/
def parenthesized (arguments : List Fragment) : Fragment :=
  if arguments.isEmpty then []
  else
    Fragment.span "bracket-round" "(" ++
      Fragment.join (Fragment.span "comma" "," ++ [.spacer]) arguments ++
      Fragment.span "bracket-round" ")"

/-- A usage behind a non-breaking space. -/
def usage (schema : Schema) (usage : DirectiveUsage) : Except RenderError Fragment :=
  match schema.directive? usage.directive with
  | none => .error (.unknownDirective usage.directive)
  | some definition => do
    let arguments ← suppliedArguments definition usage.arguments
    let link ← directiveLink schema usage.directive
    .ok (.spacer :: link ++ parenthesized arguments)

def usages (schema : Schema) : List DirectiveUsage → Except RenderError Fragment
  | [] => .ok []
  | first :: rest => do
    let shown ← usage schema first
    let more ← usages schema rest
    .ok (shown ++ more)

end GraphqlReference.Page
