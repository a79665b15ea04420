import GraphqlReference.CommandLine.Arguments
import GraphqlReference.CommandLine.Failure
import GraphqlReference.Config.Decode
import GraphqlReference.Page.Document
import GraphqlReference.Sdl.Document

namespace GraphqlReference.CommandLine

variable {m : Type → Type} [Monad m]

/-- How the program ends: what it has printed, and what it reports if it has failed. -/
structure Outcome where
  output : String
  failure : Option Failure
  deriving DecidableEq, Repr

def Outcome.success (output : String) : Outcome := ⟨output, none⟩

def loadSchema (files : FileSystem m) (path : String) : ExceptT Failure m Schema := do
  match ← files.read path with
  | .error problem => throw (.unreadable path problem)
  | .ok source =>
    match Sdl.parse source with
    | .error error => throw (.invalidSchema path error)
    | .ok schema => return schema

def readConfig (files : FileSystem m) (path : String) : ExceptT ConfigError m Config := do
  match ← files.read path with
  | .error problem => throw (.unreadable problem)
  | .ok source =>
    match Config.decode? source with
    | none => throw .malformed
    | some config => return config

/-- The configuration from a given file, or from the file of the usual name beside the schema, or
the default one. -/
def loadConfig (files : FileSystem m) (explicit : Option String) (schema : String) :
    ExceptT Failure m Config := do
  match explicit with
  | some path => ExceptT.adapt (Failure.invalidConfig path) (readConfig files path)
  | none =>
    let directory := directoryOf schema
    let path := inDirectory directory configFileName
    if ← files.isFile path then
      ExceptT.adapt (Failure.invalidFoundConfig directory) (readConfig files path)
    else return .default

/-- The configuration with what the options ask for on top. -/
def RenderOptions.adjust (options : RenderOptions) (config : Config) : Config :=
  { config with
    standalone := config.standalone && !options.fragment
    title := options.title.getD config.title }

/-- The document that the options ask for. -/
def makeDocument (files : FileSystem m) (options : RenderOptions) : ExceptT Failure m String := do
  let schema ← loadSchema files options.schema
  let config ← loadConfig files options.config options.schema
  match Page.render schema (options.adjust config) with
  | .error error => throw (.unrendered options.schema error)
  | .ok document => return String.ofList document

/-- Where to write the document; a single hyphen stands for no file at all. -/
def RenderOptions.outputPath? (options : RenderOptions) : Option String :=
  match options.output with
  | some path => if path = "-" then none else some path
  | none => some (withExtension options.schema "html")

/-- Writes a document to a file, says so, and shows it if that is asked for. -/
def publish (files : FileSystem m) (view : Bool) (path document : String) : m Outcome := do
  match ← files.write path document with
  | .error problem => return ⟨"", some (.unwritten path problem)⟩
  | .ok _ =>
    let output := s!"Generated {path}\n"
    if view then
      match ← files.view path with
      | .error problem => return ⟨output, some (.notViewed problem)⟩
      | .ok _ => return .success output
    else return .success output

def runRender (files : FileSystem m) (options : RenderOptions) : m Outcome := do
  match ← (makeDocument files options).run with
  | .error failure => return ⟨"", some failure⟩
  | .ok document =>
    match options.outputPath? with
    | none => return .success document
    | some path => publish files options.view path document

/-- The anchors of the document about a schema, each on a line. -/
def listAnchors (files : FileSystem m) (schema : String) (config : Option String) :
    ExceptT Failure m String := do
  let definitions ← loadSchema files schema
  let config ← loadConfig files config schema
  let anchors := Page.anchors definitions config.includeBuiltIns
  return String.join (anchors.map (· ++ "\n"))

def runAnchors (files : FileSystem m) (schema : String) (config : Option String) : m Outcome := do
  match ← (listAnchors files schema config).run with
  | .error failure => return ⟨"", some failure⟩
  | .ok output => return .success output

def run (files : FileSystem m) : Invocation → m Outcome
  | .version => return .success s!"{programName} {version}\n"
  | .render options => runRender files options
  | .anchors schema config => runAnchors files schema config

/-- What the program prints and reports, and its exit code. Malformed arguments are not reported
further. -/
structure Answer where
  output : String
  report : Option String
  code : Nat
  deriving DecidableEq, Repr

def Outcome.answer (outcome : Outcome) : Answer :=
  match outcome.failure with
  | none => ⟨outcome.output, none, 0⟩
  | some failure => ⟨outcome.output, some failure.report, 1⟩

def answer (files : FileSystem m) (arguments : List String) : m Answer := do
  match Invocation.ofArguments? arguments with
  | none => return ⟨"", none, 2⟩
  | some invocation =>
    let outcome ← run files invocation
    return outcome.answer

end GraphqlReference.CommandLine
