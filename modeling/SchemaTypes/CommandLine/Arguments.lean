import SchemaTypes.CommandLine.Words

/-!
# Arguments of the commands

A command line names one of three commands. All of them take the options that say what to read and
what to write; the first one can also show the documents instead of writing them. Of an option that
is given twice the last one counts. A request for help or for the version ends the reading at once,
and so does the first fault; words that mean nothing are reported only if there is no other fault.
-/

namespace SchemaTypes.CommandLine

/-- What to do. -/
inductive Command where
  | generate
  | verify
  | inspect
  deriving DecidableEq, Repr, Inhabited

namespace Command

/-- The commands in their order. -/
def all : List Command := [generate, verify, inspect]

/-- The command as it is written. -/
def text : Command → String
  | generate => "generate"
  | verify => "verify"
  | inspect => "inspect"

end Command

/-- The values of the options, by their names, and the flags that are set. -/
structure Arguments where
  values : List (String × String) := []
  flags : List String := []
  deriving DecidableEq, Repr, Inhabited

namespace Arguments

/-- The last value of an option. -/
def value? (a : Arguments) (name : String) : Option String :=
  a.values.lookup name

/-- Whether a flag is set. -/
def has (a : Arguments) (name : String) : Bool :=
  a.flags.contains name

end Arguments

/-! ## Options -/

/-- The options of every command. -/
def commonOptions : List OptionSpec :=
  [⟨["-h", "--help"], .help⟩, ⟨["--orm"], .value ["prisma", "mongoose", "auto"]⟩,
    ⟨["--schema"], .value []⟩, ⟨["--out"], .value []⟩,
    ⟨["--mode"], .value ["combined", "per-model"]⟩, ⟨["--config"], .value []⟩,
    ⟨["--no-comments"], .flag⟩, ⟨["--readonly"], .flag⟩, ⟨["--sorted-enums"], .flag⟩,
    ⟨["--date-type"], .value []⟩, ⟨["--banner"], .value []⟩,
    ⟨["--loader"], .value ["contract", "node"]⟩, ⟨["--node"], .value []⟩, ⟨["--quiet"], .flag⟩,
    ⟨["--verbose"], .flag⟩]

/-- The options of a command. -/
def optionsOf : Command → List OptionSpec
  | .generate => commonOptions ++ [⟨["--dry-run"], .flag⟩]
  | _ => commonOptions

/-- The options that stand before the command. -/
def programOptions : List OptionSpec :=
  [⟨["-h", "--help"], .help⟩, ⟨["--version"], .version⟩]

/-! ## Reading -/

/-- The name of the program. -/
def programName : String := "typebridge"

/-- Why no command is to be run. A fault is reported by the program or by one of its commands. -/
inductive Stop where
  | help
  | version
  | fault (reporter : String) (f : UsageFault)
  deriving DecidableEq, Repr

/-- What is wrong with the text behind a short option that takes none: the part of it that is
ignored, unless it consists of further options. -/
def ignoredTail (option : Char) : List Char → Option (List Char)
  | [] => none
  | c :: rest =>
    if c = '-' then some (c :: rest)
    else if c = option then
      match rest with
      | '=' :: text => some text
      | _ => ignoredTail option rest
    else none

/-- The part of a glued text that an option ignores which takes no argument. -/
def ignoredText (o : OptionSpec) (glued : Option Glued) : Option (List Char) :=
  match glued with
  | none => none
  | some ⟨true, text⟩ => some text
  | some ⟨false, text⟩ =>
    match (o.names.headD "").toList with
    | ['-', c] => ignoredTail c text
    | _ => some text

/-- The effect of an option without argument. -/
def applyPlain (reporter : String) (o : OptionSpec) (glued : Option Glued) (a : Arguments) :
    Except Stop Arguments :=
  match ignoredText o glued with
  | some text => .error (.fault reporter (.argumentIgnored o.title (String.ofList text)))
  | none =>
    match o.effect with
    | .help => .error .help
    | .version => .error .version
    | _ => .ok { a with flags := o.names ++ a.flags }

/-- The effect of an option with its argument. -/
def applyValue (reporter : String) (o : OptionSpec) (choices : List String) (text : String)
    (a : Arguments) : Except Stop Arguments :=
  if choices.isEmpty || choices.contains text then
    .ok { a with values := o.names.map (·, text) ++ a.values }
  else .error (.fault reporter (.badChoice o.title text choices))

/-- The arguments of a command, and the words that mean nothing. -/
def readOptions (reporter : String) (a : Arguments) (extras : List String) :
    List (String × Word) → Except Stop (Arguments × List String)
  | [] => .ok (a, extras)
  | (_, .option o glued) :: rest =>
    match o.effect with
    | .value choices =>
      match glued, rest with
      | some g, rest => do
        let a ← applyValue reporter o choices (String.ofList g.text) a
        readOptions reporter a extras rest
      | none, (text, .argument) :: rest => do
        let a ← applyValue reporter o choices text a
        readOptions reporter a extras rest
      | none, _ => .error (.fault reporter (.argumentMissing o.title))
    | _ => do
      let a ← applyPlain reporter o glued a
      readOptions reporter a extras rest
  | (word, .argument) :: rest => readOptions reporter a (extras ++ [word]) rest
  | (word, .separator) :: rest => readOptions reporter a (extras ++ [word]) rest
  | (word, .unknown) :: rest => readOptions reporter a (extras ++ [word]) rest

/-- The word that names the command with the words behind it, and the words before that mean
nothing. -/
def findCommand (extras : List String) :
    List (String × Word) → Except Stop (List String × Option (String × List String))
  | [] => .ok (extras, none)
  | (word, .argument) :: rest => .ok (extras, some (word, rest.map (·.1)))
  | (word, .separator) :: rest =>
    if rest.isEmpty then .ok (extras ++ [word], none)
    else .ok (extras, some (word, rest.map (·.1)))
  | (word, .unknown) :: rest => findCommand (extras ++ [word]) rest
  | (_, .option o glued) :: rest => do
    let _ ← applyPlain programName o glued {}
    findCommand extras rest

/-- A fault that the program or one of its commands reports. -/
def reportedBy {α : Type} (reporter : String) (r : Except UsageFault α) : Except Stop α :=
  r.mapError (.fault reporter)

/-- Nothing, if there are no words that mean nothing. -/
def refuseExtras (extras : List String) : Except Stop Unit :=
  if extras.isEmpty then .ok () else .error (.fault programName (.unrecognized extras))

/-- The command and its arguments that a command line asks for; there may be no command. -/
def readCommandLine (words : List String) : Except Stop (Option (Command × Arguments)) := do
  let sorted ← reportedBy programName (sortWords programOptions words)
  let (before, found) ← findCommand [] sorted
  match found with
  | none =>
    refuseExtras before
    return none
  | some (name, rest) =>
    match Command.all.find? fun c => c.text == name with
    | none =>
      throw (.fault programName (.badChoice "command" name (Command.all.map Command.text)))
    | some command =>
      let reporter := programName ++ " " ++ command.text
      let sorted ← reportedBy reporter (sortWords (optionsOf command) rest)
      let (arguments, extras) ← readOptions reporter {} [] sorted
      refuseExtras (before ++ extras)
      return some (command, arguments)

end SchemaTypes.CommandLine
