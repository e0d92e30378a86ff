import SchemaTypes.Json.Basic

/-!
# Checked values

A value from outside is checked against a description before it is used. A check finds every fault
of the value, each with the place where it stands, and gives a typed value if there is none. A
record is checked entry by entry: the expected entries in their order, then the unexpected ones,
and rules on the record as a whole only if no entry is faulty.

Results: `seq_ok_iff`, two checks succeed together exactly if both do; `map_ok_iff`, `below_ok_iff`, what
keeps a check as it is.
-/

namespace SchemaTypes

/-- What is wrong with a value. -/
inductive FaultKind where
  | missing
  | unexpected
  | notText
  | emptyText
  | emptyTuple
  | notTuple
  | notList
  | notArray
  | notObject
  | notMapping
  | notRecord (record : String)
  | notPath
  | notBoolean
  | unclearBoolean
  | notMember (members : List String)
  | notLiteral (literals : List String)
  | notJson
  | rule (text : String)
  deriving DecidableEq, Repr

namespace FaultKind

/-- Alternatives as a message lists them. -/
def alternatives : List String → String
  | [] => ""
  | [a] => a
  | [a, b] => a ++ " or " ++ b
  | a :: rest => a ++ ", " ++ alternatives rest

/-- The name of the kind of fault. -/
def name : FaultKind → String
  | missing => "missing"
  | unexpected => "extra_forbidden"
  | notText => "string_type"
  | emptyText => "string_too_short"
  | emptyTuple => "too_short"
  | notTuple => "tuple_type"
  | notList | notArray => "list_type"
  | notMapping => "dict_type"
  | notObject | notRecord _ => "model_type"
  | notPath => "path_type"
  | notBoolean => "bool_type"
  | unclearBoolean => "bool_parsing"
  | notMember _ => "enum"
  | notLiteral _ => "literal_error"
  | notJson => "json_invalid"
  | rule _ => "value_error"

/-- What a message says about the fault. -/
def message : FaultKind → String
  | missing => "Field required"
  | unexpected => "Extra inputs are not permitted"
  | notText => "Input should be a valid string"
  | emptyText => "String should have at least 1 character"
  | emptyTuple => "Tuple should have at least 1 item after validation, not 0"
  | notTuple => "Input should be a valid tuple"
  | notList => "Input should be a valid list"
  | notArray => "Input should be a valid array"
  | notObject | notMapping => "Input should be an object"
  | notRecord record => "Input should be a valid dictionary or instance of " ++ record
  | notPath => "Input is not a valid path for <class 'pathlib.Path'>"
  | notBoolean => "Input should be a valid boolean"
  | unclearBoolean => "Input should be a valid boolean, unable to interpret input"
  | notMember members => "Input should be " ++ alternatives members
  | notLiteral literals => "Input should be " ++ alternatives literals
  | notJson => "Invalid JSON"
  | rule text => "Value error, " ++ text

end FaultKind

/-- A fault and the keys that lead to it. -/
structure Fault where
  place : List String
  kind : FaultKind
  deriving DecidableEq, Repr

namespace Fault

/-- The place of a fault as text. -/
def placeText (f : Fault) : String :=
  ".".intercalate f.place

/-- The faults as one message; `whole` names the place of a fault of the value as a whole. -/
def describe (whole : String) (faults : List Fault) : String :=
  "; ".intercalate (faults.map fun f =>
    (if f.placeText == "" then whole else f.placeText) ++ ": " ++ f.kind.message)

/-- The fault as a value. -/
def toJson (f : Fault) : Json :=
  .obj [("loc", .str f.placeText), ("type", .str f.kind.name), ("msg", .str f.kind.message)]

end Fault

/-- The outcome of a check. -/
inductive Checked (α : Type) where
  | ok (value : α)
  | faulty (faults : List Fault)
  deriving Repr, Inhabited

namespace Checked

variable {α β : Type}

/-- The outcome with its value changed. -/
def map (f : α → β) : Checked α → Checked β
  | ok a => ok (f a)
  | faulty faults => faulty faults

/-- Two checks together. The faults of both count. -/
def seq (f : Checked (α → β)) (a : Checked α) : Checked β :=
  match f, a with
  | ok g, ok x => ok (g x)
  | ok _, faulty faults => faulty faults
  | faulty faults, ok _ => faulty faults
  | faulty faults, faulty more => faulty (faults ++ more)

instance : Applicative Checked where
  pure := ok
  map := map
  seq f a := seq f (a ())

theorem seq_ok_iff (f : Checked (α → β)) (a : Checked α) (b : β) :
    f.seq a = ok b ↔ ∃ g x, f = ok g ∧ a = ok x ∧ g x = b := by
  cases f <;> cases a <;> simp [seq]

theorem map_ok_iff {f : α → β} {c : Checked α} {b : β} :
    c.map f = ok b ↔ ∃ a, c = ok a ∧ f a = b := by
  cases c <;> simp [map]

/-- A value with a single fault. -/
def fault (kind : FaultKind) : Checked α :=
  faulty [{ place := [], kind }]

/-- The outcome with its faults placed below a key. -/
def below (key : String) : Checked α → Checked α
  | ok a => ok a
  | faulty faults => faulty (faults.map fun f => { f with place := key :: f.place })

theorem below_ok_iff {key : String} {c : Checked α} {a : α} : c.below key = ok a ↔ c = ok a := by
  cases c <;> simp [below]

/-- A further check of a value without faults. -/
def andThen (a : Checked α) (f : α → Checked β) : Checked β :=
  match a with
  | ok x => f x
  | faulty faults => faulty faults

/-- A rule that a value without faults has to keep; `broken?` says how it is broken. -/
def keeping (a : Checked α) (broken? : α → Option String) : Checked α :=
  a.andThen fun x =>
    match broken? x with
    | some text => fault (.rule text)
    | none => ok x

/-- The value, if there are no faults. -/
def toOption : Checked α → Option α
  | ok a => some a
  | faulty _ => none

end Checked

/-! ## Descriptions of values -/

namespace Check

variable {α : Type}

/-- A text. -/
def text : Json → Checked String
  | .str s => .ok s
  | _ => .fault .notText

/-- A text that is not empty. -/
def name (v : Json) : Checked String :=
  (text v).andThen fun s => if s == "" then .fault .emptyText else .ok s

/-- Null, or a value of the given description. -/
def nullable (check : Json → Checked α) : Json → Checked (Option α)
  | .null => .ok none
  | v => (check v).map some

/-- Texts that stand for true, whatever their case. -/
def trueTexts : List String := ["1", "on", "t", "true", "y", "yes"]

/-- Texts that stand for false, whatever their case. -/
def falseTexts : List String := ["0", "off", "f", "false", "n", "no"]

/-- A truth value, also as a number or a text that stands for one. -/
def boolean : Json → Checked Bool
  | .bool b => .ok b
  | .int n =>
    if n < -9223372036854775808 ∨ 9223372036854775808 ≤ n then .fault .notBoolean
    else if n = 0 then .ok false
    else if n = 1 then .ok true
    else .fault .unclearBoolean
  | .float x =>
    if x == 0.0 then .ok false
    else if x == 1.0 then .ok true
    else if x.floor == x && x.abs < 9223372036854775808.0 then .fault .unclearBoolean
    else .fault .notBoolean
  | .str s =>
    let small := s.toLower
    if trueTexts.contains small then .ok true
    else if falseTexts.contains small then .ok false
    else .fault .unclearBoolean
  | _ => .fault .notBoolean

/-- One of the given texts. -/
def literal (choices : List (String × α)) (v : Json) : Checked α :=
  match v.str?.bind fun s => choices.lookup s with
  | some a => .ok a
  | none => .fault (.notLiteral (choices.map fun c => "'" ++ c.1 ++ "'"))

/-- A member of an enumeration by its text. -/
def member (members : List α) (textOf : α → String) (v : Json) : Checked α :=
  match v.str?.bind fun s => members.find? fun m => textOf m == s with
  | some a => .ok a
  | none => .fault (.notMember (members.map fun m => "'" ++ textOf m ++ "'"))

/-- Items of one description, counted from the given number. -/
def itemsFrom (check : Json → Checked α) : Nat → List Json → Checked (List α)
  | _, [] => .ok []
  | n, v :: vs =>
    (((check v).below (toString n)).map List.cons).seq (itemsFrom check (n + 1) vs)

/-- An array of items of one description; `other` is the fault of a value that is no array. -/
def items (other : FaultKind) (check : Json → Checked α) : Json → Checked (List α)
  | .arr vs => itemsFrom check 0 vs
  | _ => .fault other

/-- An entry that has to be there. -/
def required (key : String) (check : Json → Checked α) (entries : List (String × Json)) :
    Checked α :=
  match Json.lookup key entries with
  | some v => (check v).below key
  | none => .faulty [{ place := [key], kind := .missing }]

/-- An entry that may be left out. -/
def optional (key : String) (default : α) (check : Json → Checked α)
    (entries : List (String × Json)) : Checked α :=
  match Json.lookup key entries with
  | some v => (check v).below key
  | none => .ok default

/-- The entries have no other keys than the given ones. -/
def noOthers (keys : List String) (entries : List (String × Json)) : Checked Unit :=
  match (entries.filter fun e => !keys.contains e.1).map (·.1) with
  | [] => .ok ()
  | others => .faulty (others.map fun key => { place := [key], kind := .unexpected })

/-- The value of the first check, with the faults of both. -/
def also (a : Checked α) (b : Checked Unit) : Checked α :=
  (a.map fun x _ => x).seq b

end Check

end SchemaTypes
