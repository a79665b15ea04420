import GraphqlReference.Binary64

namespace GraphqlReference

/-- A constant value. The fields of an object keep the order they were written in. -/
inductive Value where
  | boolean (value : Bool)
  | int (value : Int64)
  | float (value : Binary64)
  | string (text : String)
  | enum (name : String)
  | null
  | list (items : List Value)
  | object (fields : List (String × Value))
  deriving Inhabited, Repr

/-- A list of named values with one more: a new name goes to the end, a known one keeps its place
and takes the new value. -/
def setNamed {α : Type} (entries : List (String × α)) (name : String) (value : α) :
    List (String × α) :=
  match entries with
  | [] => [(name, value)]
  | (known, old) :: rest =>
    if known = name then (known, value) :: rest else (known, old) :: setNamed rest name value

/-- A list of named values in which the value of one name is changed at its place. -/
def changeNamed {α : Type} (entries : List (String × α)) (name : String) (change : α → α) :
    List (String × α) :=
  entries.map fun entry => (entry.1, if entry.1 = name then change entry.2 else entry.2)

/-- Named values in order, each name once: at its first place and with its last value. -/
def collectNamed {α : Type} (entries : List (String × α)) : List (String × α) :=
  entries.foldl (fun collected entry => setNamed collected entry.1 entry.2) []

/-- Values, each under the name that it bears itself. -/
def keyed {α : Type} (name : α → String) (items : List α) : List (String × α) :=
  items.map fun item => (name item, item)

namespace Value

mutual

/-- Structural equality: lists agree item by item, objects as maps from names to values. -/
def sameAs : Value → Value → Bool
  | .boolean left, .boolean right => left == right
  | .int left, .int right => left == right
  | .float left, .float right => left.equalValue right
  | .string left, .string right => left == right
  | .enum left, .enum right => left == right
  | .null, .null => true
  | .list left, .list right => sameItems left right
  | .object left, .object right => left.length == right.length && fieldsWithin left right
  | _, _ => false

def sameItems : List Value → List Value → Bool
  | [], [] => true
  | left :: lefts, right :: rights => sameAs left right && sameItems lefts rights
  | _, _ => false

/-- Every field on the left is on the right under its name with an equal value. -/
def fieldsWithin : List (String × Value) → List (String × Value) → Bool
  | [], _ => true
  | (name, value) :: rest, fields =>
    (match fields.lookup name with
      | some other => sameAs value other
      | none => false) && fieldsWithin rest fields

end

end Value

end GraphqlReference
