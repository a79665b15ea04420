import GraphqlReference.CommandLine.Path

namespace GraphqlReference.CommandLine

/-!
The files that the program reads and writes. What it needs of a file system is a handful of actions
in some monad; a tree of files as a value has them too.
-/

inductive FileError where
  | notFound
  | isDirectory
  | notDirectory
  | nameTooLong
  | notText
  | other (description : String)
  deriving DecidableEq, Repr

def FileError.message : FileError → String
  | notFound => "No such file or directory (os error 2)"
  | isDirectory => "Is a directory (os error 21)"
  | notDirectory => "Not a directory (os error 20)"
  | nameTooLong => "File name too long (os error 36)"
  | notText => "stream did not contain valid UTF-8"
  | other description => description

/-- Reading and writing texts, telling files from all else, and showing a file to the user. -/
structure FileSystem (m : Type → Type) where
  read : String → m (Except FileError String)
  isFile : String → m Bool
  write : String → String → m (Except FileError Unit)
  view : String → m (Except FileError Unit)

/-- What there may be at a place in a tree of files. A file that holds no valid text is only known
as such. -/
inductive Entry where
  | directory
  | text (content : String)
  | binary
  deriving DecidableEq, Repr

/-- The names that lead from the root of a tree of files to a place in it. -/
abbrev Place := List String

/-- A tree of files, by the places of its entries. The root is always there and not listed. -/
abbrev FileTree := List (Place × Entry)

namespace FileTree

def entry? (tree : FileTree) (place : Place) : Option Entry :=
  if place.isEmpty then some .directory else tree.lookup place

/-- Puts an entry at a place; what has been there is replaced. -/
def put (tree : FileTree) (place : Place) (entry : Entry) : FileTree :=
  match tree with
  | [] => [(place, entry)]
  | (known, old) :: rest =>
    if known = place then (known, entry) :: rest else (known, old) :: put rest place entry

/-- A tree in which there is a directory at a place unless something else is there. -/
def makeDirectory (tree : FileTree) (place : Place) : FileTree :=
  if (tree.entry? place).isSome then tree else tree.put place .directory

/-- The length of the longest name of an entry, in bytes. -/
def nameLimit : Nat := 255

/-- The length of the longest path, in bytes. -/
def pathLimit : Nat := 4095

/-- Where a component leads from a place. Nothing is above the root, so it is above itself. -/
def next (place : Place) (component : List Char) : Place :=
  if isFiller component then place
  else if component = ['.', '.'] then place.dropLast
  else place ++ [String.ofList component]

def checkDirectory (tree : FileTree) (place : Place) : Except FileError Unit :=
  match tree.entry? place with
  | none => .error .notFound
  | some .directory => .ok ()
  | some _ => .error .notDirectory

/-- One component further from a place, which has to be a directory. -/
def step (tree : FileTree) (place : Place) (component : List Char) : Except FileError Place := do
  tree.checkDirectory place
  if nameLimit < (String.ofList component).utf8ByteSize then .error .nameTooLong
  else .ok (next place component)

/-- The place that components lead to. -/
def placeOf (tree : FileTree) (start : Place) (components : List (List Char)) :
    Except FileError Place :=
  components.foldlM (step tree) start

/-- Where a path begins: at the root if it is absolute, else in the working directory. -/
def origin (directory : Place) (path : String) : Place :=
  if path.startsWith "/" then [] else directory

def checkLength (path : String) : Except FileError Unit :=
  if pathLimit < path.utf8ByteSize then .error .nameTooLong else .ok ()

/-- The place that a path leads to. There need not be anything there. -/
def locate (tree : FileTree) (directory : Place) (path : String) : Except FileError Place := do
  checkLength path
  tree.placeOf (origin directory path) (components path.toList)

/-- The place at which a file can be written. A slash at the end asks for a directory; then the last
name does not matter, but what comes before it does. -/
def locateFile (tree : FileTree) (directory : Place) (path : String) : Except FileError Place := do
  checkLength path
  let start := origin directory path
  let components := components path.toList
  if path.endsWith "/" then
    let named := (components.reverse.dropWhile List.isEmpty).reverse
    let above ← tree.placeOf start named.dropLast
    tree.checkDirectory above
    .error .isDirectory
  else tree.placeOf start components

def read (tree : FileTree) (directory : Place) (path : String) : Except FileError String := do
  let place ← tree.locate directory path
  match tree.entry? place with
  | none => .error .notFound
  | some .directory => .error .isDirectory
  | some .binary => .error .notText
  | some (.text content) => .ok content

def isFile (tree : FileTree) (directory : Place) (path : String) : Bool :=
  match tree.locate directory path with
  | .error _ => false
  | .ok place =>
    match tree.entry? place with
    | none | some .directory => false
    | some _ => true

def write (tree : FileTree) (directory : Place) (path content : String) :
    Except FileError FileTree := do
  let place ← tree.locateFile directory path
  match tree.entry? place with
  | some .directory => .error .isDirectory
  | _ => .ok (tree.put place (.text content))

/-- Goes along components and makes the directories that are missing on the way. -/
def makeWay (tree : FileTree) (start : Place) : List (List Char) → FileTree × Place
  | [] => (tree, start)
  | component :: rest =>
    let place := next start component
    makeWay (tree.makeDirectory place) place rest

/-- Puts an entry at the end of a path and makes the directories that lead there. -/
def plant (tree : FileTree) (directory : Place) (path : String) (entry : Entry) : FileTree :=
  let components := components path.toList
  let (tree, above) := tree.makeWay directory components.dropLast
  let place := next above (components.getLast?.getD [])
  if entry = .directory then tree.makeDirectory place else tree.put place entry

/-- The path that leads from a directory to a place below it. -/
def pathBelow? (directory place : Place) : Option String :=
  (directory.isPrefixOf? place).map fun names => "/".intercalate names

/-- The texts below a directory that are new or changed in a second tree, in order of their
paths. -/
def changes (directory : Place) (before after : FileTree) : List (String × String) :=
  let changed := after.filterMap fun (place, entry) =>
    match entry with
    | .text content =>
      if before.lookup place = some entry then none
      else (pathBelow? directory place).map fun path => (path, content)
    | _ => none
  changed.mergeSort fun first second => first.1 ≤ second.1

end FileTree

/-- The tree of files as a file system with a working directory. Nobody is there to view a file. -/
def FileSystem.ofTree (directory : Place) : FileSystem (StateM FileTree) where
  read path := return (← get).read directory path
  isFile path := return (← get).isFile directory path
  write path content := do
    match (← get).write directory path content with
    | .error problem => return .error problem
    | .ok tree =>
      set tree
      return .ok ()
  view _ := return .error .notFound

end GraphqlReference.CommandLine
