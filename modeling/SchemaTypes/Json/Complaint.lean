import SchemaTypes.Json.Reader

/-!
# What is wrong with a text that is no JSON

A text that settings cannot be read from is reported with the first fault in it and the place of the fault.
The text is gone through once more, without values. What may follow a number, say, is for the array or object
around it, so a fault behind a value is found by what stands around the value.

Places are told by the characters that are left, since that is what reading goes by.
-/

namespace SchemaTypes.Json

/-- What may be wrong at some place of a text. -/
inductive Wrong where
  | noValue
  | noKey
  | noColon
  | noComma
  | notClosed
  | control
  | badEscape
  | badDigits
  | extra
  | mark
  deriving DecidableEq, Repr

/-- What a message says about it. -/
def Wrong.text : Wrong → String
  | noValue => "Expecting value"
  | noKey => "Expecting property name enclosed in double quotes"
  | noColon => "Expecting ':' delimiter"
  | noComma => "Expecting ',' delimiter"
  | notClosed => "Unterminated string starting at"
  | control => "Invalid control character at"
  | badEscape => "Invalid \\escape"
  | badDigits => "Invalid \\uXXXX escape"
  | extra => "Extra data"
  | mark => "Unexpected UTF-8 BOM (decode using utf-8-sig)"

/-- The first fault of a text: what is wrong from some place on, or an integer with too many digits. -/
inductive Complaint where
  | found (wrong : Wrong) (rest : List Char)
  | tooLong (digits : Nat)

/-- What stands behind a piece of a text, or the first fault in it. -/
abbrev Passed := Except Complaint (List Char)

/-! ## Texts and numbers -/

/-- Passes a text up to its closing quote. A text that is not closed is reported from its opening quote on. Four
digits must be followed by a further character. -/
def passText (opening : List Char) : List Char → Passed
  | '"' :: rest => .ok rest
  | '\\' :: 'u' :: a :: b :: c :: d :: e :: rest =>
    if (fourDigits a b c d).isSome then passText opening (e :: rest)
    else .error (.found .badDigits ('u' :: a :: b :: c :: d :: e :: rest))
  | '\\' :: 'u' :: rest => .error (.found .badDigits ('u' :: rest))
  | '\\' :: c :: rest =>
    if (shortEscape? c).isSome then passText opening rest else .error (.found .badEscape ('\\' :: c :: rest))
  | c :: rest =>
    if c.toNat < 0x20 then .error (.found .control (c :: rest))
    else if c = '\\' then .error (.found .notClosed opening)
    else passText opening rest
  | [] => .error (.found .notClosed opening)

/-- What stands behind a number, as long as it goes on, and whether it is an integer. -/
def afterNumber (afterWhole : List Char) : Bool × List Char :=
  let (whole, afterFraction) := match readFraction afterWhole with
    | some (ds, rest) => (ds.isEmpty, rest)
    | none => (true, afterWhole)
  match readExponent afterFraction with
  | some (some _, rest) => (false, rest)
  | _ => (whole, afterFraction)

/-- Passes a number. -/
def passNumber (cs : List Char) : Passed :=
  let unsigned := match cs with
    | '-' :: rest => rest
    | _ => cs
  match readWhole unsigned with
  | none => .error (.found .noValue cs)
  | some (ds, afterWhole) =>
    let (isInteger, rest) := afterNumber afterWhole
    if isInteger && 4300 < ds.length then .error (.tooLong ds.length) else .ok rest

/-- Passes a number, or a value written as a word. -/
def passAtom (cs : List Char) : Passed :=
  match ["null", "true", "false", "NaN", "Infinity", "-Infinity"].findSome? fun word =>
      word.toList.isPrefixOf? cs with
  | some rest => .ok rest
  | none => passNumber cs

/-! ## Values -/

mutual

/-- Passes a value. Of two calls in a row one passes a character, so twice the length of the text is fuel
enough. -/
def passValue : (fuel : Nat) → List Char → Passed
  | 0, cs => .error (.found .noValue cs)
  | _ + 1, '"' :: rest => passText ('"' :: rest) rest
  | fuel + 1, '[' :: rest =>
    match skipBlanks rest with
    | ']' :: after => .ok after
    | start => passItems fuel start
  | fuel + 1, '\x7b' :: rest =>
    match skipBlanks rest with
    | '\x7d' :: after => .ok after
    | start => passEntries fuel start
  | _ + 1, cs => passAtom cs

/-- Passes the items of an array that is not empty, up to its closing bracket. -/
def passItems : (fuel : Nat) → List Char → Passed
  | 0, cs => .error (.found .noValue cs)
  | fuel + 1, cs => do
    match skipBlanks (← passValue fuel cs) with
    | ',' :: more => passItems fuel (skipBlanks more)
    | ']' :: after => .ok after
    | place => .error (.found .noComma place)

/-- Passes the entries of an object that is not empty, up to its closing brace. -/
def passEntries : (fuel : Nat) → List Char → Passed
  | 0, cs => .error (.found .noKey cs)
  | fuel + 1, '"' :: cs => do
    match skipBlanks (← passText ('"' :: cs) cs) with
    | ':' :: more =>
      match skipBlanks (← passValue fuel (skipBlanks more)) with
      | ',' :: more => passEntries fuel (skipBlanks more)
      | '\x7d' :: after => .ok after
      | place => .error (.found .noComma place)
    | place => .error (.found .noColon place)
  | _ + 1, cs => .error (.found .noKey cs)

end

/-- Passes a whole text, without the gap behind its value. -/
def passDocument (text : List Char) : Passed := do
  if text.head? = some '\uFEFF' then throw (.found .mark text)
  let cs := skipBlanks text
  return skipBlanks (← passValue (2 * cs.length + 1) cs)

/-! ## Messages -/

/-- Where the rest of a text starts: its line, the place in the line, and the characters before it. -/
def placeOf (text rest : List Char) : String :=
  let before := text.take (text.length - rest.length)
  let column := (before.reverse.takeWhile (· != '\n')).length + 1
  "line " ++ toString (before.count '\n' + 1) ++ " column " ++ toString column ++
    " (char " ++ toString before.length ++ ")"

/-- What a message says about the fault in a text. -/
def Complaint.message (text : List Char) : Complaint → String
  | found wrong rest => wrong.text ++ ": " ++ placeOf text rest
  | tooLong digits =>
    "Exceeds the limit (4300 digits) for integer string conversion: value has " ++ toString digits ++
      " digits; use sys.set_int_max_str_digits() to increase the limit"

/-- What a message says about a text that is no JSON. -/
def complaintAbout (text : String) : String :=
  let cs := text.toList
  match passDocument cs with
  | .ok rest => (Complaint.found .extra rest).message cs
  | .error complaint => complaint.message cs

example : complaintAbout "\x7b\"a\": 1,\n\x7d" =
    "Expecting property name enclosed in double quotes: line 2 column 1 (char 9)" := by
  decide +kernel

end SchemaTypes.Json
