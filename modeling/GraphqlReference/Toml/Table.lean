import GraphqlReference.Toml.Scalar
import GraphqlReference.Value

namespace GraphqlReference.Toml

/-- How a table has come into being: by a header of its own or as a whole document, because the
header of a table inside it names it, or by a dotted key. -/
inductive TableKind where
  | explicit
  | implied
  | dotted
  deriving DecidableEq, Repr

/-- What a key stands for: a finished value, a table, or an array of tables, of which the last one
can still grow. -/
inductive Node where
  | value (value : Value)
  | table (kind : TableKind) (entries : List (String × Node))
  | tables (elements : List (List (String × Node)))
  deriving Inhabited, Repr

abbrev Entries := List (String × Node)

/-- Changes the table at the end of a path. Missing tables on the way come into being, and an array
of tables is entered at its last element. With a dotted path no table is entered that has a header
of its own. -/
def within (dotted : Bool) (change : TableKind → Entries → Option Entries) :
    TableKind → List String → Entries → Option Entries
  | kind, [], entries => change kind entries
  | _, key :: path, entries =>
    match entries.lookup key with
    | none =>
      let kind := if dotted then .dotted else .implied
      (within dotted change kind path []).map fun inner => setNamed entries key (.table kind inner)
    | some (.value _) => none
    | some (.table kind inner) =>
      if dotted ∧ kind = .explicit then none
      else
        (within dotted change kind path inner).map fun inner =>
          setNamed entries key (.table kind inner)
    | some (.tables elements) =>
      match elements.getLast? with
      | none => none
      | some last =>
        (within dotted change .explicit path last).map fun inner =>
          setNamed entries key (.tables (elements.dropLast ++ [inner]))

/-- Gives a value to a new key of a table. A table that dotted keys made grows by dotted keys only,
and they make no other table grow. -/
def insertValue (pathIsEmpty : Bool) (key : String) (value : Value) (kind : TableKind)
    (entries : Entries) : Option Entries :=
  if (kind = .dotted) = pathIsEmpty then none
  else if (entries.lookup key).isSome then none
  else some (entries ++ [(key, .value value)])

/-- Gives a value to a key, possibly a dotted one, inside the table of a header. -/
def assign (header : List String) (path : List String) (value : Value) (root : Entries) :
    Option Entries :=
  match path.getLast? with
  | none => none
  | some key =>
    let tables := path.dropLast
    within false (fun kind => within true (insertValue tables.isEmpty key value) kind tables)
      .explicit header root

/-- Opens the table of a header. It must not have been opened before, nor made by dotted keys. -/
def openTable (header : List String) (root : Entries) : Option Entries :=
  match header.getLast? with
  | none => none
  | some key =>
    within false (fun _ entries =>
      match entries.lookup key with
      | none => some (setNamed entries key (.table .explicit []))
      | some (.table .implied inner) => some (setNamed entries key (.table .explicit inner))
      | some _ => none) .explicit header.dropLast root

/-- Opens a new element of an array of tables. -/
def openElement (header : List String) (root : Entries) : Option Entries :=
  match header.getLast? with
  | none => none
  | some key =>
    within false (fun _ entries =>
      match entries.lookup key with
      | none => some (setNamed entries key (.tables [[]]))
      | some (.tables elements) => some (setNamed entries key (.tables (elements ++ [[]])))
      | some _ => none) .explicit header.dropLast root

mutual

/-- The finished value of a node. -/
def Node.toValue : Node → Value
  | .value value => value
  | .table _ entries => .table (entryValues entries)
  | .tables elements => .array (elementValues elements)

def entryValues : List (String × Node) → List (String × Value)
  | [] => []
  | (key, node) :: rest => (key, node.toValue) :: entryValues rest

def elementValues : List (List (String × Node)) → List Value
  | [] => []
  | entries :: rest => .table (entryValues entries) :: elementValues rest

end

/-- The table that pairs of keys and values make in their order. -/
def ofPairs? (pairs : List (List String × Value)) : Option (List (String × Value)) :=
  (pairs.foldlM (fun entries pair => assign [] pair.1 pair.2 entries) []).map entryValues

end GraphqlReference.Toml
