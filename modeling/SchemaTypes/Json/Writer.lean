import SchemaTypes.Decimal
import SchemaTypes.Json.Basic
import SchemaTypes.Text.Hex
import SchemaTypes.Text.Quoted

/-!
# Writing JSON

Three ways to write a value: on one line with sorted keys, which is how a default is recorded; over
several lines, two blanks to a level; and the way a message shows it. The first two write ASCII
only, a character above it by the code units of its escape.
-/

namespace SchemaTypes.Json

/-- The special numbers in JSON. -/
def numberLayout : Decimal.Layout := { nan := "NaN", infinity := "Infinity" }

/-- The special numbers in a message. -/
def messageLayout : Decimal.Layout := { nan := "nan", infinity := "inf" }

/-- A character inside a JSON text. -/
def escape (c : Char) : List Char :=
  if c = '"' then ['\\', '"']
  else if c = '\\' then ['\\', '\\']
  else if c = '\n' then ['\\', 'n']
  else if c = '\r' then ['\\', 'r']
  else if c = '\t' then ['\\', 't']
  else if c = '\x08' then ['\\', 'b']
  else if c = '\x0c' then ['\\', 'f']
  else if 0x20 ≤ c.toNat ∧ c.toNat < 0x7F then [c]
  else if c.toNat < 0x10000 then '\\' :: 'u' :: Text.hexText 4 c.toNat
  else
    let n := c.toNat - 0x10000
    '\\' :: 'u' :: Text.hexText 4 (0xD800 + n / 0x400) ++
      '\\' :: 'u' :: Text.hexText 4 (0xDC00 + n % 0x400)

/-- A text between double quotes. -/
def writeText (s : String) : String :=
  String.ofList ('"' :: s.toList.flatMap escape ++ ['"'])

/-- Entries in the order of their keys. -/
def sortEntries {α : Type} (entries : List (String × α)) : List (String × α) :=
  entries.mergeSort fun a b => !(decide (b.1 < a.1))

/-! ## On one line -/

mutual

/-- A value on one line; `order` arranges the entries of each object. -/
def writeWith (order : List (String × String) → List (String × String)) : Json → String
  | arr items => "[" ++ ", ".intercalate (writeItems order items) ++ "]"
  | obj entries =>
    "\x7b" ++ ", ".intercalate ((order (writeEntries order entries)).map fun e =>
      writeText e.1 ++ ": " ++ e.2) ++ "\x7d"
  | null => "null"
  | bool b => if b then "true" else "false"
  | int n => toString n
  | float x => Decimal.text numberLayout x
  | str s => writeText s

/-- The items of an array, each written. -/
def writeItems (order : List (String × String) → List (String × String)) :
    List Json → List String
  | [] => []
  | item :: items => writeWith order item :: writeItems order items

/-- The entries of an object, each value written. -/
def writeEntries (order : List (String × String) → List (String × String)) :
    List (String × Json) → List (String × String)
  | [] => []
  | (key, value) :: entries => (key, writeWith order value) :: writeEntries order entries

end

/-- A value on one line, entries as they stand. -/
def compact (v : Json) : String := writeWith id v

/-- A value on one line with the entries of every object in the order of their keys. -/
def sorted (v : Json) : String := writeWith sortEntries v

/-! ## Over several lines -/

/-- The parts of a container, each on a line of its own. -/
def writeBlock (opening closing : String) (depth : Nat) (parts : List String) : String :=
  if parts.isEmpty then opening ++ closing
  else
    let pad := String.ofList (List.replicate (2 * (depth + 1)) ' ')
    let close := String.ofList (List.replicate (2 * depth) ' ')
    opening ++ "\n" ++ pad ++ (",\n" ++ pad).intercalate parts ++ "\n" ++ close ++ closing

mutual

/-- A value over several lines, inside `depth` containers. -/
def writeIndented (depth : Nat) : Json → String
  | arr items => writeBlock "[" "]" depth (indentedItems (depth + 1) items)
  | obj entries => writeBlock "\x7b" "\x7d" depth (indentedEntries (depth + 1) entries)
  | null => "null"
  | bool b => if b then "true" else "false"
  | int n => toString n
  | float x => Decimal.text numberLayout x
  | str s => writeText s

/-- The items of an array, each over several lines. -/
def indentedItems (depth : Nat) : List Json → List String
  | [] => []
  | item :: items => writeIndented depth item :: indentedItems depth items

/-- The entries of an object, each over several lines. -/
def indentedEntries (depth : Nat) : List (String × Json) → List String
  | [] => []
  | (key, value) :: entries =>
    (writeText key ++ ": " ++ writeIndented depth value) :: indentedEntries depth entries

end

/-- A value over several lines. -/
def indented (v : Json) : String := writeIndented 0 v

/-! ## In messages -/

mutual

/-- A value inside a message. -/
def shown : Json → String
  | arr items => "[" ++ ", ".intercalate (shownItems items) ++ "]"
  | obj entries => "\x7b" ++ ", ".intercalate (shownEntries entries) ++ "\x7d"
  | null => "None"
  | bool b => if b then "True" else "False"
  | int n => toString n
  | float x => Decimal.text messageLayout x
  | str s => Text.quoted s

/-- The items of an array inside a message. -/
def shownItems : List Json → List String
  | [] => []
  | item :: items => shown item :: shownItems items

/-- The entries of an object inside a message. -/
def shownEntries : List (String × Json) → List String
  | [] => []
  | (key, value) :: entries => (Text.quoted key ++ ": " ++ shown value) :: shownEntries entries

end

/-- A value taken as a text: a text is itself, any other value is shown. -/
def asText : Json → String
  | str s => s
  | v => shown v

end SchemaTypes.Json
