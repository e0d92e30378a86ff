import SchemaTypes.Text.Digit
import SchemaTypes.Text.Quoted

/-!
# Words of a command line

The words of a command line are options and arguments. An option may be shortened as long as no
other option starts in the same way, and its argument may be glued to it with an equals sign. A word
that looks like a negative number or contains a space is an argument even if it starts with a
hyphen. After the separator `--` every word is an argument.
-/

namespace SchemaTypes.CommandLine

/-- What an option does. A value may be restricted to some texts. -/
inductive Effect where
  | help
  | version
  | flag
  | value (choices : List String)
  deriving DecidableEq, Repr

/-- An option with all its names. -/
structure OptionSpec where
  names : List String
  effect : Effect
  deriving DecidableEq, Repr

/-- A text glued to an option, and whether an equals sign stands before it. -/
structure Glued where
  afterSign : Bool
  text : List Char
  deriving DecidableEq, Repr

/-- What a word is. -/
inductive Word where
  | argument
  | separator
  | unknown
  | option (o : OptionSpec) (glued : Option Glued)
  deriving DecidableEq, Repr

/-- Why a command line cannot be used. The messages name an option by all its names. -/
inductive UsageFault where
  | ambiguous (word : String) (names : List String)
  | argumentMissing (option : String)
  | argumentIgnored (option text : String)
  | badChoice (option text : String) (choices : List String)
  | unrecognized (words : List String)
  deriving DecidableEq, Repr

/-- What a message says about the command line. -/
def UsageFault.message : UsageFault → String
  | ambiguous word names =>
    "ambiguous option: " ++ word ++ " could match " ++ ", ".intercalate names
  | argumentMissing option => "argument " ++ option ++ ": expected one argument"
  | argumentIgnored option text =>
    "argument " ++ option ++ ": ignored explicit argument " ++ Text.quoted text
  | badChoice option text choices =>
    "argument " ++ option ++ ": invalid choice: " ++ Text.quoted text ++ " (choose from " ++
      ", ".intercalate (choices.map Text.quoted) ++ ")"
  | unrecognized words => "unrecognized arguments: " ++ " ".intercalate words

/-- The name of an option in messages. -/
def OptionSpec.title (o : OptionSpec) : String :=
  "/".intercalate o.names

/-- All names of options, with what they name. -/
def namesOf (options : List OptionSpec) : List (List Char × OptionSpec) :=
  options.flatMap fun o => o.names.map fun name => (name.toList, o)

/-- Whether the word is a number below zero. -/
def isNegativeNumber (word : List Char) : Bool :=
  let body := if word.getLast? == some '\n' then word.dropLast else word
  match body with
  | '-' :: digits =>
    match digits.dropWhile Text.isDecimal with
    | [] => !digits.isEmpty
    | '.' :: fraction => !fraction.isEmpty && fraction.all Text.isDecimal
    | _ => false
  | _ => false

/-- The text before the first equals sign, and the text after it if there is one. -/
def splitAtSign (word : List Char) : List Char × Option (List Char) :=
  match word.dropWhile (· != '=') with
  | [] => (word, none)
  | _ :: rest => (word.takeWhile (· != '='), some rest)

/-- The options that a word may stand for in short, each with the name that fits. -/
def candidates (options : List OptionSpec) (word : List Char) : List (List Char × Word) :=
  match word with
  | '-' :: '-' :: _ =>
    let (start, glued) := splitAtSign word
    (namesOf options).filterMap fun (name, o) =>
      if start.isPrefixOf name then some (name, .option o (glued.map (⟨true, ·⟩))) else none
  | _ =>
    (namesOf options).filterMap fun (name, o) =>
      if name == word.take 2 then some (name, .option o (some ⟨false, word.drop 2⟩))
      else if word.isPrefixOf name then some (name, .option o none)
      else none

/-- What a word is that starts with a hyphen and names no option in full. -/
def sortShortened (options : List OptionSpec) (word : List Char) : Except UsageFault Word :=
  match candidates options word with
  | [(_, w)] => .ok w
  | [] =>
    if isNegativeNumber word || word.contains ' ' then .ok .argument else .ok .unknown
  | several =>
    .error (.ambiguous (String.ofList word) (several.map fun c => String.ofList c.1))

/-- What a word is before the separator. -/
def sortWord (options : List OptionSpec) (word : List Char) : Except UsageFault Word :=
  match word with
  | [] => .ok .argument
  | '-' :: rest =>
    match (namesOf options).lookup word with
    | some o => .ok (.option o none)
    | none =>
      if rest.isEmpty then .ok .argument
      else
        match splitAtSign word with
        | (start, some glued) =>
          match (namesOf options).lookup start with
          | some o => .ok (.option o (some ⟨true, glued⟩))
          | none => sortShortened options word
        | (_, none) => sortShortened options word
  | _ => .ok .argument

/-- The words of a command line, each with what it is. -/
def sortWords (options : List OptionSpec) : List String → Except UsageFault (List (String × Word))
  | [] => .ok []
  | word :: words =>
    if word == "--" then .ok ((word, .separator) :: words.map (·, .argument))
    else do
      let w ← sortWord options word.toList
      let ws ← sortWords options words
      return (word, w) :: ws

end SchemaTypes.CommandLine
