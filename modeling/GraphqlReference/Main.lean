import GraphqlReference.CommandLine.Run

namespace GraphqlReference.CommandLine

/-- The number of a problem. Some actions give it with a minus. -/
def problemNumber (code : UInt32) : UInt32 :=
  if code < 2147483648 then code else -code

def fileError : IO.Error → FileError
  | .noFileOrDirectory .. => .notFound
  | .inappropriateType _ code _ =>
    if problemNumber code = 20 then .notDirectory else .isDirectory
  | .invalidArgument (some path) code details =>
    if problemNumber code = 36 then .nameTooLong
    else .other (toString (IO.Error.invalidArgument (some path) code details))
  | problem => .other (toString problem)

def attempt {α : Type} (action : IO α) : IO (Except FileError α) := do
  match ← action.toBaseIO with
  | .ok result => return .ok result
  | .error problem => return .error (fileError problem)

/-- The files of the machine. There is no program that would show a file. -/
def machine : FileSystem IO where
  read path := do
    match ← attempt (IO.FS.readBinFile path) with
    | .error problem => return .error problem
    | .ok bytes =>
      match String.fromUTF8? bytes with
      | some content => return .ok content
      | none => return .error .notText
  isFile path := do
    match ← (IO.FS.realPath path).toBaseIO with
    | .error _ => return false
    | .ok place =>
      match ← place.metadata.toBaseIO with
      | .ok found => return found.type == .file
      | .error _ => return false
  write path content := attempt (IO.FS.writeFile path content)
  view _ := return .error .notFound

end GraphqlReference.CommandLine

open GraphqlReference.CommandLine in
def main (arguments : List String) : IO UInt32 := do
  let answer ← answer machine arguments
  IO.print answer.output
  match answer.report with
  | some report => IO.eprint report
  | none => pure ()
  return answer.code.toUInt32
