namespace GraphqlReference.CommandLine

def programName : String := "schemadoc"

def version : String := "1.0.1"

/-- The name of the configuration file that is looked for beside a schema. -/
def configFileName : String := "schemadoc.toml"

structure RenderOptions where
  schema : String
  output : Option String
  config : Option String
  fragment : Bool
  title : Option String
  view : Bool
  deriving DecidableEq, Repr

inductive Invocation where
  | version
  | render (options : RenderOptions)
  | anchors (schema : String) (config : Option String)
  deriving DecidableEq, Repr

inductive Command where
  | render
  | anchors
  deriving DecidableEq, Repr

def Command.name : Command → String
  | render => "render"
  | anchors => "anchors"

/-- An argument as it looks: the mark behind which there are no options any more, a long option
that may have a value attached, some short options, or anything else. -/
inductive Word where
  | endOfOptions
  | long (name : String) (value : Option String)
  | short (letters : List Char)
  | plain (text : String)
  deriving DecidableEq, Repr

/-- A single hyphen is nothing special. -/
def Word.of (argument : String) : Word :=
  match argument.toList with
  | ['-', '-'] => .endOfOptions
  | '-' :: '-' :: body =>
    let name := String.ofList (body.takeWhile (· ≠ '='))
    match body.dropWhile (· ≠ '=') with
    | '=' :: value => .long name (some (String.ofList value))
    | _ => .long name none
  | '-' :: letter :: letters => .short (letter :: letters)
  | _ => .plain argument

/-- The options that take a value. -/
inductive ValueOption where
  | logLevel
  | output
  | config
  | title
  deriving DecidableEq, Repr

/-- The options that take none. -/
inductive Flag where
  | fragment
  | view
  deriving DecidableEq, Repr

inductive Switch where
  | value (option : ValueOption)
  | flag (flag : Flag)
  deriving DecidableEq, Repr

/-- The options of a command by their long names. -/
def Command.switch? (command : Command) (name : String) : Option Switch :=
  match command, name with
  | _, "log-level" => some (.value .logLevel)
  | _, "config" => some (.value .config)
  | .render, "output" => some (.value .output)
  | .render, "title" => some (.value .title)
  | .render, "fragment" => some (.flag .fragment)
  | .render, "open" => some (.flag .view)
  | _, _ => none

def logLevels : List String :=
  ["off", "error", "warn", "info", "debug", "trace"]

/-- Whether an option takes a value: levels are known by name, and a path is not empty. -/
def ValueOption.accepts (option : ValueOption) (value : String) : Bool :=
  match option with
  | logLevel => logLevels.contains value
  | output | config => !value.isEmpty
  | title => true

/-- What the arguments of a command have given so far. -/
structure Given where
  schema : Option String
  values : List (ValueOption × String)
  flags : List Flag
  deriving DecidableEq, Repr

namespace Given

def nothing : Given := ⟨none, [], []⟩

/-- Takes a value for an option that has none yet. -/
def setValue (given : Given) (option : ValueOption) (value : String) : Option Given :=
  if (given.values.lookup option).isSome || !option.accepts value then none
  else some { given with values := (option, value) :: given.values }

/-- Sets a flag that is not set yet. -/
def setFlag (given : Given) (flag : Flag) : Option Given :=
  if given.flags.contains flag then none else some { given with flags := flag :: given.flags }

/-- Takes the only argument that is no option, the path of a schema. -/
def setSchema (given : Given) (path : String) : Option Given :=
  if given.schema.isSome || path.isEmpty then none else some { given with schema := some path }

end Given

/-- The value that short options attach to the one that takes any, possibly behind an equals
sign; nothing if there are other short options, and no value if none is attached. -/
def attachedOutput? (command : Command) : List Char → Option (Option String)
  | 'o' :: value =>
    if command = .render then
      match value with
      | [] => some none
      | '=' :: value => some (some (String.ofList value))
      | value => some (some (String.ofList value))
    else none
  | _ => none

/-- Takes the arguments of a command one by one. An option without an attached value takes the next
argument, unless that looks like an option itself. -/
def Given.take (command : Command) (given : Given) : List String → Option Given
  | [] => some given
  | argument :: rest =>
    let next (option : ValueOption) : Option Given :=
      match rest with
      | [] => none
      | value :: rest =>
        match Word.of value with
        | .plain value => do
          let given ← given.setValue option value
          given.take command rest
        | _ => none
    match Word.of argument with
    | .endOfOptions => rest.foldlM setSchema given
    | .plain path => do
      let given ← given.setSchema path
      given.take command rest
    | .long name attached =>
      match command.switch? name, attached with
      | some (.value option), some value => do
        let given ← given.setValue option value
        given.take command rest
      | some (.value option), none => next option
      | some (.flag flag), none => do
        let given ← given.setFlag flag
        given.take command rest
      | _, _ => none
    | .short letters =>
      match attachedOutput? command letters with
      | some (some value) => do
        let given ← given.setValue .output value
        given.take command rest
      | some none => next .output
      | none => none

/-- The invocation that the arguments of a command make; the path of a schema is required. -/
def Given.invocation? (command : Command) (given : Given) : Option Invocation :=
  given.schema.map fun schema =>
    match command with
    | .render =>
      .render
        { schema
          output := given.values.lookup .output
          config := given.values.lookup .config
          fragment := given.flags.contains .fragment
          title := given.values.lookup .title
          view := given.flags.contains .view }
    | .anchors => .anchors schema (given.values.lookup .config)

def command? (name : String) : Option Command :=
  [Command.render, .anchors].find? (·.name == name)

/-- The invocation that all arguments of the program make. In front of the command there may be a
log level, once, and the question for the version, which is answered as soon as it is met. -/
def invocationFrom (levelGiven : Bool) : List String → Option Invocation
  | [] => none
  | argument :: rest =>
    match Word.of argument with
    | .plain name => do
      let command ← command? name
      let given ← Given.nothing.take command rest
      given.invocation? command
    | .long "version" none => some .version
    | .short ('V' :: _) => some .version
    | .long "log-level" (some level) =>
      if levelGiven || !logLevels.contains level then none else invocationFrom true rest
    | .long "log-level" none =>
      match rest with
      | level :: rest =>
        if levelGiven || !logLevels.contains level then none else invocationFrom true rest
      | [] => none
    | _ => none

/-- The invocation that the arguments of the program make, if they are well formed. -/
def Invocation.ofArguments? (arguments : List String) : Option Invocation :=
  invocationFrom false arguments

end GraphqlReference.CommandLine
