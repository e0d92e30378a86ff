/-!
# JSON values

Integers and floating-point numbers are kept apart, since they are written differently. An object
is a list of entries in the order in which they were given, each key once.
-/

namespace SchemaTypes

/-- A JSON value. -/
inductive Json where
  | null
  | bool (b : Bool)
  | int (n : Int)
  | float (x : Float)
  | str (s : String)
  | arr (items : List Json)
  | obj (entries : List (String × Json))
  deriving Inhabited

namespace Json

/-- The value at a key. -/
def lookup (key : String) : List (String × Json) → Option Json
  | [] => none
  | (k, v) :: rest => if k = key then some v else lookup key rest

/-- An entry added at the end, or in place of the entry with the same key. -/
def insert (key : String) (value : Json) : List (String × Json) → List (String × Json)
  | [] => [(key, value)]
  | (k, v) :: rest => if k = key then (k, value) :: rest else (k, v) :: insert key value rest

/-- The value at a key of an object; other values have no keys. -/
def get? (key : String) : Json → Option Json
  | obj entries => lookup key entries
  | _ => none

/-- The text, if the value is one. -/
def str? : Json → Option String
  | str s => some s
  | _ => none

/-- The items, if the value is an array. -/
def arr? : Json → Option (List Json)
  | arr items => some items
  | _ => none

/-- The entries, if the value is an object. -/
def obj? : Json → Option (List (String × Json))
  | obj entries => some entries
  | _ => none

/-- A text that may be missing, as a value. -/
def ofText? : Option String → Json
  | some s => str s
  | none => null

/-- A list of texts as a value. -/
def ofTexts (xs : List String) : Json :=
  arr (xs.map str)

/-- Whether the value counts as true in a condition: null, false, zero and everything empty do
not. -/
def isTruthy : Json → Bool
  | null => false
  | bool b => b
  | int n => n != 0
  | float x => x != 0.0
  | str s => s != ""
  | arr items => !items.isEmpty
  | obj entries => !entries.isEmpty

end Json

end SchemaTypes
