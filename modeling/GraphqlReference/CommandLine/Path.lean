namespace GraphqlReference.CommandLine

/-- The components of a path. There is an empty one for each slash that no name precedes or
follows. -/
def components : List Char → List (List Char)
  | [] => [[]]
  | c :: rest =>
    if c = '/' then [] :: components rest
    else
      match components rest with
      | [] => [[c]]
      | first :: more => (c :: first) :: more

def isFiller (component : List Char) : Bool :=
  component == [] || component == ['.']

/-- Components of a directory without those at the end that lead nowhere else; the first one tells
whether the path is absolute and stays. -/
def trimComponents : List (List Char) → List (List Char)
  | [] => []
  | first :: rest => first :: (rest.reverse.dropWhile isFiller).reverse

/-- The directory of a file; a single point for a bare file name. -/
def directoryOf (path : String) : String :=
  match trimComponents (components path.toList).dropLast with
  | [] => "."
  | [[]] => "/"
  | directory => String.ofList (['/'].intercalate directory)

/-- The path of a file in a directory. -/
def inDirectory (directory name : String) : String :=
  if directory.endsWith "/" then directory ++ name else directory ++ "/" ++ name

/-- A file name up to its last point, with what follows the point. A point at the beginning
separates nothing. -/
def splitExtension? (name : List Char) : Option (List Char × List Char) :=
  let extension := (name.reverse.takeWhile (· ≠ '.')).reverse
  let stem := name.take (name.length - extension.length - 1)
  if stem.isEmpty then none else some (stem, extension)

/-- A file name with another extension. What is left of a name without its extension may be two
points, which name a directory and stay as they are. -/
def replaceExtension (name : List Char) (extension : List Char) : List Char :=
  match splitExtension? name with
  | none => name ++ '.' :: extension
  | some (stem, _) => if stem = ['.'] then ['.', '.'] else stem ++ '.' :: extension

/-- A path whose file name has another extension. -/
def withExtension (path extension : String) : String :=
  let components := components path.toList
  let name := components.getLast?.getD []
  String.ofList
    (['/'].intercalate (components.dropLast ++ [replaceExtension name extension.toList]))

end GraphqlReference.CommandLine
