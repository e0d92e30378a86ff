import SchemaTypes.CommandLine.Arguments
import SchemaTypes.Generation.Events
import SchemaTypes.Json.Writer

/-!
# The program

A command line is turned into settings, a run is made with them, and its result is told on the
standard output, on the error output and by the exit status. Flags win over the settings in a file.
Without a file the schema language is looked for in the current directory if the command line does
not name it.
-/

namespace SchemaTypes.CommandLine

/-- What the program prints, and the status with which it ends. -/
structure Transcript where
  output : String := ""
  errors : String := ""
  status : Nat := 0
  deriving DecidableEq, Repr, Inhabited

/-- What came of a command line: the files afterwards, the transcript unless the program broke off,
and the events that were shown. -/
structure Outcome where
  tree : FileTree
  transcript : Except Problem Transcript
  events : List Event

/-- The version of the program. -/
def versionText : String := "1.0.0"

/-- How the program is used. -/
def usageText : String :=
  "usage: " ++ programName ++ " [-h] [--version] \x7bgenerate,verify,inspect\x7d ...\n"

/-- Lines, each ended by a line feed. -/
def printed (lines : List String) : String :=
  String.join (lines.map (· ++ "\n"))

/-- The transcript of a command line that asks for no run. -/
def Stop.transcript : Stop → Transcript
  | help => { output := usageText }
  | version => { output := printed [programName ++ " " ++ versionText] }
  | fault reporter f =>
    { errors := usageText ++ printed [reporter ++ ": error: " ++ f.message], status := 2 }

/-! ## Settings -/

/-- The schema that is read if none is named. -/
def defaultSchema : SourceKind → Path
  | .prisma => { root := "", parts := ["prisma", "schema.prisma"] }
  | .mongoose => { root := "", parts := ["models"] }

/-- The output if none is named. -/
def defaultOutput : Path := { root := "", parts := ["types"] }

/-- A path that is named on the command line, as a value. -/
def pathValue? (a : Arguments) (name : String) : Option Json :=
  (a.value? name).map fun s => .str (Path.ofString s).toString

/-- A text that is given on the command line, as a value. -/
def textValue? (a : Arguments) (name : String) : Option Json :=
  (a.value? name).map .str

/-- A value that a flag stands for. -/
def flagValue? (a : Arguments) (name : String) (v : Json) : Option Json :=
  if a.has name then some v else none

/-- The settings that are given on the command line. -/
def givenSettings (a : Arguments) : List (String × Json) :=
  [("schema_path", pathValue? a "--schema"), ("output_path", pathValue? a "--out"),
    ("output_mode", textValue? a "--mode"),
    ("include_comments", flagValue? a "--no-comments" (.bool false)),
    ("readonly", flagValue? a "--readonly" (.bool true)),
    ("enum_order", flagValue? a "--sorted-enums" (.str "sorted")),
    ("date_type", textValue? a "--date-type"), ("banner", textValue? a "--banner"),
    ("mongoose_loader", textValue? a "--loader"), ("node_executable", textValue? a "--node")
    ].filterMap fun (key, v) => v.map (key, ·)

/-- The schema language that the command line names. -/
def namedSourceKind? (a : Arguments) : Option SourceKind :=
  (a.value? "--orm").bind fun s => SourceKind.choices.lookup s

/-- The schema language that the command line names or that the current directory shows. -/
def sourceKindOf (ws : Workspace) (a : Arguments) : Except Issue SourceKind :=
  match namedSourceKind? a with
  | some kind => .ok kind
  | none =>
    match Project.sourceKind? ws.tree ws.root with
    | some kind => .ok kind
    | none =>
      .error (.invalidOptions
        "Could not detect Prisma or Mongoose in the current directory; pass --orm")

/-- The schema that is read if none is named, given the schema language. -/
def schemaFor (ws : Workspace) (kind : SourceKind) : Path :=
  match kind with
  | .prisma => (Project.schema? ws.tree ws.root).getD (defaultSchema kind)
  | .mongoose => defaultSchema kind

/-- A value for a key that has none. -/
def withDefault (key : String) (v : Json) (entries : List (String × Json)) :
    List (String × Json) :=
  match Json.lookup key entries with
  | some _ => entries
  | none => entries ++ [(key, v)]

/-- The settings of a command. -/
def settingsOf (ws : Workspace) (a : Arguments) : Except Issue Settings :=
  let given := givenSettings a
  match a.value? "--config" with
  | some file =>
    let kind := match namedSourceKind? a with
      | some kind => [("orm", Json.str kind.text)]
      | none => []
    Settings.ofFile ws.tree (Path.ofString file) (given ++ kind)
  | none => do
    let kind ← sourceKindOf ws a
    let schema := Json.str (schemaFor ws kind).toString
    Settings.ofEntries (("orm", .str kind.text) ::
      withDefault "output_path" (.str defaultOutput.toString)
        (withDefault "schema_path" schema given))

/-! ## Telling results -/

/-- The lines about warnings. -/
def warningLines (quiet : Bool) (warnings : List Issue) : List String :=
  if quiet then []
  else
    warnings.map fun w =>
      let element := match w.element with
        | none | some "" => ""
        | some name => " (" ++ name ++ ")"
      "Warning [" ++ w.code.text ++ "]" ++ element ++ ": " ++ w.message

/-- The line about the issue that ended a run. -/
def errorLine (i : Issue) : String :=
  let path := match i.path with
    | none | some "" => ""
    | some path => " [" ++ path ++ "]"
  "Error [" ++ i.code.text ++ "]" ++ path ++ ": " ++ i.message

/-- The transcript of a run that failed. -/
def failed (warnings : List String) (i : Issue) : Transcript :=
  { errors := printed (warnings ++ [errorLine i]), status := i.code.exitStatus }

/-- The transcript of a generation. -/
def tellGeneration (quiet dryRun : Bool) (r : GenerationResult) : Transcript :=
  let warnings := warningLines quiet r.warnings
  match r.error with
  | some i => failed warnings i
  | none =>
    let lines :=
      if dryRun then r.documents.flatMap fun (path, text) => ["// " ++ path, text]
      else if quiet then []
      else
        ["[OK] Generation complete", "  Models: " ++ toString r.modelCount,
          "  Enums: " ++ toString r.enumCount] ++
          r.written.map ("  Wrote: " ++ ·) ++
          r.cycles.map fun cycle => "  Cycle: " ++ References.cycleText cycle
    { output := printed lines, errors := printed warnings }

/-- The transcript of a verification. -/
def tellVerification (quiet : Bool) (r : VerificationResult) : Transcript :=
  match r.error with
  | some i => failed [] i
  | none =>
    let errors := printed (warningLines quiet r.warnings)
    let lines :=
      if r.inSync then ["[OK] Generated files are up to date"]
      else
        "[STALE] Generated files are out of date" :: r.missing.map ("  Missing: " ++ ·) ++
          r.stale.map ("  Stale: " ++ ·)
    { output := if quiet then "" else printed lines, errors
      status := if r.inSync then 0 else 1 }

/-- The transcript of an inspection. -/
def tellInspection (quiet : Bool) (r : InspectionResult) : Transcript :=
  match r.error with
  | some i => failed [] i
  | none =>
    { output := printed [r.toJson.indented], errors := printed (warningLines quiet r.warnings) }

/-! ## Running -/

/-- The level from which events are shown. -/
def levelOf (a : Arguments) : Level :=
  if a.has "--verbose" then .debug
  else if a.has "--quiet" then .error
  else .warning

/-- What comes of a command with its settings. -/
def runCommand (ws : Workspace) (a : Arguments) (settings : Settings) : Command → Outcome
  | .generate =>
    let dryRun := a.has "--dry-run"
    let delivery := if dryRun then Delivery.dryRun else .write Writer.toFiles
    let (result, tree) := generate ws settings .source delivery ws.tree
    { tree
      transcript := result.map (tellGeneration (a.has "--quiet") dryRun)
      events := generateEvents ws settings .source dryRun }
  | .verify =>
    { tree := ws.tree
      transcript := (verify ws settings .source).map (tellVerification (a.has "--quiet"))
      events := buildEvents ws settings .source }
  | .inspect =>
    { tree := ws.tree
      transcript := (inspect ws settings .source).map (tellInspection (a.has "--quiet"))
      events := buildEvents ws settings .source }

/-- What comes of a command line. -/
def run (ws : Workspace) (words : List String) : Outcome :=
  match readCommandLine words with
  | .error stop => { tree := ws.tree, transcript := .ok stop.transcript, events := [] }
  | .ok none =>
    { tree := ws.tree, transcript := .ok { output := usageText, status := 1 }, events := [] }
  | .ok (some (command, a)) =>
    match settingsOf ws a with
    | .error i => { tree := ws.tree, transcript := .ok (failed [] i), events := [] }
    | .ok settings =>
      let outcome := runCommand ws a settings command
      { outcome with events := Event.shown (levelOf a) outcome.events }

end SchemaTypes.CommandLine
