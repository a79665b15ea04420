import GraphqlReference.CommandLine.FileSystem
import GraphqlReference.Page.Link
import GraphqlReference.Schema.Error

namespace GraphqlReference.CommandLine

/-- One of the reasons for a failure. A report ends with a reason whose text is not complete. -/
structure Cause where
  text : String
  complete : Bool
  deriving DecidableEq, Repr

/-- What has failed, and the reasons, each the reason for the one before. -/
structure Failure where
  summary : String
  causes : List Cause
  deriving DecidableEq, Repr

/-- Why a configuration could not be had. -/
inductive ConfigError where
  | unreadable (problem : FileError)
  | malformed
  deriving DecidableEq, Repr

def ConfigError.causes : ConfigError → List Cause
  | unreadable problem =>
    [⟨s!"failed to read configuration file: {problem.message}", true⟩, ⟨problem.message, true⟩]
  | malformed => [⟨"failed to parse configuration: ", false⟩, ⟨"", true⟩]

namespace Failure

def unreadable (path : String) (problem : FileError) : Failure :=
  ⟨s!"failed to read '{path}'", [⟨problem.message, true⟩]⟩

def invalidSchema (path : String) (error : SchemaError) : Failure :=
  ⟨s!"failed to load schema '{path}'", [⟨error.message, error != .malformed⟩]⟩

def invalidConfig (path : String) (error : ConfigError) : Failure :=
  ⟨s!"failed to load configuration '{path}'", error.causes⟩

def invalidFoundConfig (directory : String) (error : ConfigError) : Failure :=
  ⟨s!"failed to load configuration from '{directory}'", error.causes⟩

def unrendered (path : String) (error : Page.RenderError) : Failure :=
  ⟨s!"failed to render '{path}'", [⟨error.message, true⟩]⟩

def unwritten (path : String) (problem : FileError) : Failure :=
  ⟨s!"failed to write '{path}'", [⟨problem.message, true⟩]⟩

def notViewed (problem : FileError) : Failure :=
  ⟨problem.message, []⟩

end Failure

/-- The lines of several causes, which are numbered. -/
def numberedCauses (number : Nat) : List Cause → String
  | [] => ""
  | cause :: rest =>
    let line := s!"    {number}: {cause.text}"
    if cause.complete then line ++ "\n" ++ numberedCauses (number + 1) rest else line

/-- The lines of all causes. -/
def causeLines : List Cause → String
  | [cause] => "    " ++ cause.text ++ (if cause.complete then "\n" else "")
  | causes => numberedCauses 0 causes

/-- The report about a failure. -/
def Failure.report (failure : Failure) : String :=
  let head := s!"Error: {failure.summary}\n"
  if failure.causes.isEmpty then head else head ++ "\nCaused by:\n" ++ causeLines failure.causes

end GraphqlReference.CommandLine
