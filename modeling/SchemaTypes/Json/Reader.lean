import SchemaTypes.Decimal
import SchemaTypes.Json.Basic
import SchemaTypes.Text.Hex

/-!
# Reading JSON

A reader takes the characters that are left and returns a value with the characters after it, or
nothing if the text is not JSON. Beyond the grammar of JSON the names `NaN`, `Infinity` and
`-Infinity` are numbers. An integer has at most 4300 digits. Of two entries with one key the later
value wins, at the place of the first.

Two rules differ between the readers of settings and of contracts: what becomes of an escape that
is half of a surrogate pair, and how deep values may be nested. They are the fields of `Rules`.
-/

namespace SchemaTypes.Json

/-- What readers of JSON may differ in. -/
structure Rules where
  /-- What stands for half of a surrogate pair; without it such an escape is an error. -/
  halfPair : Option Char
  /-- How many arrays and objects that are not empty may be nested. -/
  depth : Option Nat

/-- The rules for settings and package descriptions. Texts are made of Unicode scalar values here, so half of a
surrogate pair becomes the replacement character where a reader of code points would keep it. -/
def settingsRules : Rules := { halfPair := some '\uFFFD', depth := none }

/-- The rules for contracts. -/
def contractRules : Rules := { halfPair := none, depth := some 200 }

/-- The characters between the parts of a value. -/
def isGap (c : Char) : Bool :=
  c == ' ' || c == '\t' || c == '\n' || c == '\r'

/-- The text after its leading gap. -/
def skipBlanks (cs : List Char) : List Char :=
  cs.dropWhile isGap

/-! ## Text -/

/-- A character of a text, or the code unit of an escape that is half of a surrogate pair. -/
abbrev Piece := Char ⊕ Nat

/-- The value of four hexadecimal digits. -/
def fourDigits (a b c d : Char) : Option Nat := do
  let a ← Text.hexValue? a
  let b ← Text.hexValue? b
  let c ← Text.hexValue? c
  let d ← Text.hexValue? d
  return ((a * 16 + b) * 16 + c) * 16 + d

/-- The character that a one-letter escape stands for. -/
def shortEscape? : Char → Option Char
  | '"' => some '"'
  | '\\' => some '\\'
  | '/' => some '/'
  | 'b' => some '\x08'
  | 'f' => some '\x0c'
  | 'n' => some '\n'
  | 'r' => some '\r'
  | 't' => some '\t'
  | _ => none

/-- The pieces of a text up to its closing quote, and the characters after the quote. -/
def readPieces : List Char → Option (List Piece × List Char)
  | '"' :: rest => some ([], rest)
  | '\\' :: 'u' :: a :: b :: c :: d :: rest => do
    let n ← fourDigits a b c d
    let (pieces, after) ← readPieces rest
    let piece : Piece := if 0xD800 ≤ n ∧ n < 0xE000 then .inr n else .inl (Char.ofNat n)
    return (piece :: pieces, after)
  | '\\' :: c :: rest => do
    let e ← shortEscape? c
    let (pieces, after) ← readPieces rest
    return (.inl e :: pieces, after)
  | c :: rest =>
    if c.toNat < 0x20 ∨ c = '\\' then none
    else do
      let (pieces, after) ← readPieces rest
      return (.inl c :: pieces, after)
  | [] => none

/-- The text of the pieces, with the two halves of each pair joined. -/
def joinPieces (halfPair : Option Char) : List Piece → Option (List Char)
  | [] => some []
  | .inl c :: rest => (joinPieces halfPair rest).map (c :: ·)
  | .inr n :: .inr m :: rest =>
    if n < 0xDC00 ∧ 0xDC00 ≤ m then
      let code := 0x10000 + (n - 0xD800) * 0x400 + (m - 0xDC00)
      (joinPieces halfPair rest).map (Char.ofNat code :: ·)
    else do
      let c ← halfPair
      let cs ← joinPieces halfPair (.inr m :: rest)
      return c :: cs
  | .inr _ :: rest => do
    let c ← halfPair
    let cs ← joinPieces halfPair rest
    return c :: cs

/-- A text after its opening quote. -/
def readText (rules : Rules) (cs : List Char) : Option (String × List Char) := do
  let (pieces, rest) ← readPieces cs
  let text ← joinPieces rules.halfPair pieces
  return (String.ofList text, rest)

/-! ## Numbers -/

/-- The value of a run of decimal digits. -/
def digitsValue (ds : List Char) : Nat :=
  ds.foldl (fun n c => n * 10 + (c.toNat - 0x30)) 0

/-- The digits at the front, at least one, and what follows them. -/
def readDigits (cs : List Char) : Option (List Char × List Char) :=
  match cs.takeWhile Char.isDigit with
  | [] => none
  | ds => some (ds, cs.dropWhile Char.isDigit)

/-- The digits before the point: a zero alone, or digits that start with another one. -/
def readWhole (cs : List Char) : Option (List Char × List Char) :=
  match cs with
  | '0' :: rest => some (['0'], rest)
  | _ => readDigits cs

/-- The digits after a point; none if there is no point. -/
def readFraction : List Char → Option (List Char × List Char)
  | '.' :: rest => readDigits rest
  | cs => some ([], cs)

/-- The exponent; nothing if there is none. -/
def readExponent : List Char → Option (Option Int × List Char)
  | c :: rest =>
    if c = 'e' ∨ c = 'E' then
      let (negative, digits) := match rest with
        | '-' :: r => (true, r)
        | '+' :: r => (false, r)
        | r => (false, r)
      (readDigits digits).map fun (ds, after) =>
        let n : Int := digitsValue ds
        (some (if negative then -n else n), after)
    else some (none, c :: rest)
  | [] => some (none, [])

/-- A number without its sign. -/
def readMagnitude (negative : Bool) (cs : List Char) : Option (Json × List Char) := do
  let (whole, afterWhole) ← readWhole cs
  let (fraction, afterFraction) ← readFraction afterWhole
  let (exponent, rest) ← readExponent afterFraction
  if fraction.isEmpty && exponent.isNone then
    if 4300 < whole.length then none
    else
      let n : Int := digitsValue whole
      return (.int (if negative then -n else n), rest)
  else
    let x := Decimal.nearest (digitsValue (whole ++ fraction))
      (exponent.getD 0 - fraction.length)
    return (.float (if negative then -x else x), rest)

/-- A value written as a word. -/
def readWord (word : String) (value : Json) (cs : List Char) : Option (Json × List Char) :=
  (word.toList.isPrefixOf? cs).map (value, ·)

/-- A number, or a value written as a word. -/
def readAtom (cs : List Char) : Option (Json × List Char) :=
  match cs with
  | 'n' :: _ => readWord "null" .null cs
  | 't' :: _ => readWord "true" (.bool true) cs
  | 'f' :: _ => readWord "false" (.bool false) cs
  | 'N' :: _ => readWord "NaN" (.float (0.0 / 0.0)) cs
  | 'I' :: _ => readWord "Infinity" (.float (1.0 / 0.0)) cs
  | '-' :: 'I' :: _ => readWord "-Infinity" (.float (-1.0 / 0.0)) cs
  | '-' :: rest => readMagnitude true rest
  | _ => readMagnitude false cs

/-! ## Values -/

mutual

/-- A value after its leading gap. Every call uses up fuel, and every call but the first has read
a character, so the length of the text is fuel enough. `depth` counts the containers around. -/
def readValue (rules : Rules) : (fuel depth : Nat) → List Char → Option (Json × List Char)
  | 0, _, _ => none
  | _ + 1, _, '"' :: rest =>
    (readText rules rest).map fun (s, after) => (.str s, after)
  | fuel + 1, depth, '[' :: rest =>
    match skipBlanks rest with
    | ']' :: after => some (.arr [], after)
    | start =>
      if rules.depth.any (· ≤ depth) then none
      else (readItems rules fuel (depth + 1) start).map fun (items, after) => (.arr items, after)
  | fuel + 1, depth, '\x7b' :: rest =>
    match skipBlanks rest with
    | '\x7d' :: after => some (.obj [], after)
    | start =>
      if rules.depth.any (· ≤ depth) then none
      else (readEntries rules fuel (depth + 1) [] start).map fun (entries, after) =>
        (.obj entries, after)
  | _ + 1, _, cs => readAtom cs

/-- The items of an array that is not empty, up to its closing bracket. -/
def readItems (rules : Rules) : (fuel depth : Nat) → List Char → Option (List Json × List Char)
  | 0, _, _ => none
  | fuel + 1, depth, cs =>
    match readValue rules fuel depth cs with
    | none => none
    | some (item, rest) =>
      match skipBlanks rest with
      | ',' :: more =>
        (readItems rules fuel depth (skipBlanks more)).map fun (items, after) =>
          (item :: items, after)
      | ']' :: after => some ([item], after)
      | _ => none

/-- The entries of an object that is not empty, up to its closing brace, after those already
read. -/
def readEntries (rules : Rules) : (fuel depth : Nat) → List (String × Json) → List Char →
    Option (List (String × Json) × List Char)
  | 0, _, _, _ => none
  | fuel + 1, depth, entries, '"' :: cs =>
    match readText rules cs with
    | none => none
    | some (key, rest) =>
      match skipBlanks rest with
      | ':' :: more =>
        match readValue rules fuel depth (skipBlanks more) with
        | none => none
        | some (value, rest) =>
          let entries := insert key value entries
          match skipBlanks rest with
          | ',' :: more => readEntries rules fuel depth entries (skipBlanks more)
          | '\x7d' :: after => some (entries, after)
          | _ => none
      | _ => none
  | _ + 1, _, _, _ => none

end

/-- The value that a whole text holds. -/
def read? (rules : Rules) (text : String) : Option Json :=
  let cs := skipBlanks text.toList
  match readValue rules (cs.length + 1) 0 cs with
  | some (value, rest) => if (skipBlanks rest).isEmpty then some value else none
  | none => none

end SchemaTypes.Json
