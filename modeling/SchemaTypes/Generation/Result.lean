import SchemaTypes.Generation.Writer
import SchemaTypes.Model.Record
import SchemaTypes.Source

/-!
# Results

A run generates documents, verifies that the files on disk are those that it would generate, or
inspects what the documents would declare. An issue that ends the run becomes part of its result. A
run is successful if there is none.
-/

namespace SchemaTypes

/-- Where the raw schema of a run comes from: it is read from a source, or it is given. -/
inductive Input where
  | source
  | given (raw : RawSchema)

/-- The raw schema of a run. -/
def Input.raw (ws : Workspace) (settings : Settings) : Input → Except Problem RawSchema
  | .source =>
    ((SchemaSource.ofSettings settings).read ws settings.schemaPath).map Reading.raw
  | .given raw => .ok raw

/-- The output of a run. -/
def Output.build (ws : Workspace) (settings : Settings) (input : Input) :
    Except Problem Output :=
  (input.raw ws settings).bind (Output.ofRaw settings)

/-! ## Generation -/

/-- The result of a generation. Whether it went through is told beside the error, and the documents are
part of it only if nothing was to be written. -/
structure GenerationResult where
  error : Option Issue := none
  isOk : Bool := error.isNone
  warnings : List Issue := []
  written : List String := []
  documents : List (String × String) := []
  modelCount : Nat := 0
  enumCount : Nat := 0
  cycles : List (List String) := []
  deriving DecidableEq, Inhabited

/-- A text put among others by its name, in place of one with the same name. -/
def putText (name text : String) : List (String × String) → List (String × String)
  | [] => [(name, text)]
  | (n, t) :: rest => if n = name then (n, text) :: rest else (n, t) :: putText name text rest

/-- Documents by their paths. -/
def textsByPath (documents : List Document) : List (String × String) :=
  documents.foldl (fun texts d => putText d.path.toString d.content texts) []

/-- The result for an output before anything is written. -/
def GenerationResult.ofOutput (output : Output) : GenerationResult :=
  { isOk := true, warnings := output.issues, modelCount := output.models.length
    enumCount := output.enums.length, cycles := output.cycles }

/-- The result for an output that is only shown. -/
def GenerationResult.ofDryRun (output : Output) : GenerationResult :=
  { GenerationResult.ofOutput output with documents := textsByPath output.documents }

/-- The result for an output that was handed to a writer. -/
def GenerationResult.ofWriting {σ : Type} (output : Output) (writing : Writing σ) :
    GenerationResult :=
  { GenerationResult.ofOutput output with
    isOk := writing.failure.isNone
    written := writing.written.map fun d => d.path.toString
    error := writing.failure.map fun (d, reason) => .outputUnwritable d.path.toString reason }

/-- What a run does with an output. -/
inductive Delivery (σ : Type) where
  | dryRun
  | write (w : Writer σ)

/-- The result for an output that was handed to a writer, unless the writer broke off. -/
def GenerationResult.ofWriting? {σ : Type} (output : Output) (writing : Writing σ) :
    Except Problem GenerationResult :=
  match writing.broken with
  | some fault => .error (.path fault)
  | none => .ok (.ofWriting output writing)

/-- A generation: its result, and the state of the writer afterwards. -/
def generate {σ : Type} (ws : Workspace) (settings : Settings) (input : Input)
    (delivery : Delivery σ) (state : σ) : Except Problem GenerationResult × σ :=
  match Output.build ws settings input with
  | .error (.issue i) => (.ok { isOk := false, error := some i }, state)
  | .error problem => (.error problem, state)
  | .ok output =>
    match delivery with
    | .dryRun => (.ok (.ofDryRun output), state)
    | .write w =>
      let writing := writeAll w state output.documents
      (GenerationResult.ofWriting? output writing, writing.state)

/-! ## Verification -/

/-- The result of a verification: the files that are not there and those with another text. -/
structure VerificationResult where
  stale : List String := []
  missing : List String := []
  error : Option Issue := none
  warnings : List Issue := []
  deriving DecidableEq, Inhabited

namespace VerificationResult

/-- Whether the run was successful. -/
def isOk (r : VerificationResult) : Bool :=
  r.error.isNone

/-- Whether every document is on disk as it would be generated. -/
def inSync (r : VerificationResult) : Bool :=
  r.isOk && r.stale.isEmpty && r.missing.isEmpty

end VerificationResult

/-- Whether the file of a document has its text. -/
def Document.isCurrent (tree : FileTree) (d : Document) : Bool :=
  match tree.readText d.path with
  | .ok text => text == d.content
  | .error _ => false

/-- The result for the documents of an output. -/
def VerificationResult.ofOutput (tree : FileTree) (output : Output) : VerificationResult :=
  let (present, absent) := output.documents.partition fun d => tree.isFile d.path
  { stale := (present.filter fun d => !d.isCurrent tree).map fun d => d.path.toString
    missing := absent.map fun d => d.path.toString
    warnings := output.issues }

/-- A verification. It breaks off at a document on whose path the system does not look. -/
def verify (ws : Workspace) (settings : Settings) (input : Input) :
    Except Problem VerificationResult :=
  match Output.build ws settings input with
  | .error (.issue i) => .ok { error := some i }
  | .error problem => .error problem
  | .ok output =>
    match output.documents.findSome? fun d => ws.tree.lookFault? d.path with
    | some fault => .error (.path fault)
    | none => .ok (.ofOutput ws.tree output)

/-! ## Inspection -/

/-- The result of an inspection. -/
structure InspectionResult where
  models : List Model := []
  enums : List EnumDefinition := []
  cycles : List (List String) := []
  error : Option Issue := none
  warnings : List Issue := []
  deriving Inhabited

/-- Whether the run was successful. -/
def InspectionResult.isOk (r : InspectionResult) : Bool :=
  r.error.isNone

/-- An inspection. -/
def inspect (ws : Workspace) (settings : Settings) (input : Input) :
    Except Problem InspectionResult :=
  match Output.build ws settings input with
  | .error (.issue i) => .ok { error := some i }
  | .error problem => .error problem
  | .ok output =>
    .ok { models := output.models, enums := output.enums, cycles := output.cycles
          warnings := output.issues }

/-! ## Records -/

/-- An issue that may be missing, as a value. -/
def Json.ofIssue? : Option Issue → Json
  | some i => i.toJson
  | none => .null

/-- Cycles as a value. -/
def Json.ofCycles (cycles : List (List String)) : Json :=
  .arr (cycles.map Json.ofTexts)

/-- Issues as a value. -/
def Json.ofIssues (issues : List Issue) : Json :=
  .arr (issues.map Issue.toJson)

/-- Pairs of a name and a text, as a value. -/
def Json.ofPairs (pairs : List (String × String)) : Json :=
  .arr (pairs.map fun p => .arr [.str p.1, .str p.2])

/-- The result of a generation as a record. -/
def GenerationResult.toJson (r : GenerationResult) : Json :=
  .obj [("ok", .bool r.isOk), ("error", Json.ofIssue? r.error),
    ("warnings", Json.ofIssues r.warnings), ("written", Json.ofTexts r.written),
    ("documents", Json.ofPairs r.documents), ("model_count", .int r.modelCount),
    ("enum_count", .int r.enumCount), ("cycles", Json.ofCycles r.cycles)]

/-- The result of a verification as a record. -/
def VerificationResult.toJson (r : VerificationResult) : Json :=
  .obj [("ok", .bool r.isOk), ("in_sync", .bool r.inSync), ("stale", Json.ofTexts r.stale),
    ("missing", Json.ofTexts r.missing), ("error", Json.ofIssue? r.error),
    ("warnings", Json.ofIssues r.warnings)]

/-- The result of an inspection as a record. -/
def InspectionResult.toJson (r : InspectionResult) : Json :=
  .obj [("ok", .bool r.isOk), ("models", .arr (r.models.map Model.toJson)),
    ("enums", .arr (r.enums.map EnumDefinition.toJson)), ("cycles", Json.ofCycles r.cycles),
    ("error", Json.ofIssue? r.error), ("warnings", Json.ofIssues r.warnings)]

end SchemaTypes
