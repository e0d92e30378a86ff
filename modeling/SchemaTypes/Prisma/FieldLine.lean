import SchemaTypes.Prisma.Nesting
import SchemaTypes.Text.Blank
import SchemaTypes.Text.Quoted
import SchemaTypes.Text.Word

/-!
# Field lines

A line of a model declares a field: a name, a type with arguments in parentheses if it has any, the
marks `[]` of a list and `?` of an optional value, and attributes. Each attribute starts with `@`.
A line without content and a line that starts with `@@` declare nothing.
-/

namespace SchemaTypes.Prisma

/-- Why a line is no field. -/
inductive LineFault where
  | unrecognized (line : String)
  | unbalanced (line : String)
  deriving DecidableEq, Repr

/-- What a message says about the line. -/
def LineFault.message : LineFault → String
  | unrecognized line => "Unrecognized field declaration: " ++ Text.quoted line
  | unbalanced line => "Unbalanced type arguments: " ++ Text.quoted line

/-- A field as its line declares it. The type is the text of the source with its arguments. -/
structure FieldLine where
  name : String
  typeName : String
  isArray : Bool
  isOptional : Bool
  attributes : String
  isPrimary : Bool
  isUnique : Bool
  defaultValue : Option String
  description : Option String
  deriving DecidableEq, Repr, Inhabited

/-! ## Attributes -/

/-- The character before this one does not make the mark of an attribute a double one. -/
def startsMark (before : Option Char) (c : Char) : Bool :=
  c == '@' && before != some '@'

/-- Whether the attribute of the given name stands somewhere in the text, as a word of its own. -/
def hasAttribute (key : List Char) : (before : Option Char) → List Char → Bool
  | _, [] => false
  | before, c :: cs =>
    (startsMark before c &&
      match key.isPrefixOf? cs with
      | some rest => !rest.head?.any Text.isWord
      | none => false) || hasAttribute key (some c) cs

/-- The arguments at the front of a text, without the parentheses around them. Without a closing
one they reach to the end. -/
def arguments? (cs : List Char) : Option (List Char) :=
  match cs.dropWhile Text.isBlank with
  | '(' :: rest =>
    match closing? parentheses ('(' :: rest) with
    | some n => some (Text.trim (rest.take (n - 1)))
    | none => some (Text.trim rest)
  | _ => none

/-- The arguments of the first attribute of the given name that has some. -/
def attributeArguments? (key : List Char) : (before : Option Char) → List Char →
    Option (List Char)
  | _, [] => none
  | before, c :: cs =>
    let here := if startsMark before c then (key.isPrefixOf? cs).bind arguments? else none
    match here with
    | some arguments => some arguments
    | none => attributeArguments? key (some c) cs

/-! ## Lines -/

/-- A word at the front and the text behind it. -/
def word? (cs : List Char) : Option (List Char × List Char) :=
  match cs.takeWhile Text.isWord with
  | [] => none
  | word => some (word, cs.dropWhile Text.isWord)

/-- The name and the type of a field at the front of a line, and the text behind them. -/
def nameAndType? (line : List Char) : Option (List Char × List Char × List Char) := do
  let (name, rest) ← word? line
  if rest.head?.any Text.isBlank then
    let (typeName, rest) ← word? (rest.dropWhile Text.isBlank)
    return (name, typeName, rest)
  else none

/-- The type with the arguments that follow it, and the text behind them. -/
def withArguments? (typeName rest : List Char) : Option (List Char × List Char) :=
  match rest with
  | '(' :: _ =>
    (closing? parentheses rest).map fun n => (typeName ++ rest.take (n + 1), rest.drop (n + 1))
  | _ => some (typeName, rest)

/-- A mark at the front, if it is there, and the text behind it. -/
def mark (m cs : List Char) : Bool × List Char :=
  match m.isPrefixOf? cs with
  | some rest => (true, rest)
  | none => (false, cs)

/-- The attributes at the end of a line. Blanks come before them, and they are all on one line. -/
def attributes? (cs : List Char) : Option (List Char) :=
  match cs with
  | [] => some []
  | c :: _ =>
    let text := cs.dropWhile Text.isBlank
    if Text.isBlank c && !text.contains '\n' then some text else none

/-- The field that a line without comment and outer blanks declares. -/
def FieldLine.ofContent (line : List Char) (description : Option String) :
    Except LineFault FieldLine :=
  let unrecognized := LineFault.unrecognized (String.ofList line)
  match nameAndType? line with
  | none => .error unrecognized
  | some (name, typeName, rest) =>
    match withArguments? typeName rest with
    | none => .error (.unbalanced (String.ofList line))
    | some (typeName, rest) =>
      let (isArray, rest) := mark ['[', ']'] rest
      let (isOptional, rest) := mark ['?'] rest
      match attributes? rest with
      | none => .error unrecognized
      | some attributes =>
        .ok { name := String.ofList name
              typeName := String.ofList typeName
              isArray, isOptional
              attributes := String.ofList attributes
              isPrimary := hasAttribute ['i', 'd'] none attributes
              isUnique := hasAttribute "unique".toList none attributes
              defaultValue := (attributeArguments? "default".toList none attributes).map
                String.ofList
              description }

/-- The content of a line: what is left without comment and outer blanks, unless it is empty or
belongs to the block as a whole. -/
def content? (line : List Char) : Option (List Char) :=
  match Text.trim (stripComment line) with
  | [] => none
  | '@' :: '@' :: _ => none
  | text => some text

/-- The field that a line declares, if it declares one. -/
def FieldLine.ofLine (line : List Char) (description : Option String) :
    Except LineFault (Option FieldLine) :=
  match content? line with
  | none => .ok none
  | some text => (FieldLine.ofContent text description).map some

end SchemaTypes.Prisma
