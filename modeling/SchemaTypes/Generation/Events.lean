import SchemaTypes.Generation.Result
import SchemaTypes.Log

/-!
# Events of a run

The events of a run follow from what each of its steps found, in the order of the steps. They do not
influence the run.
-/

namespace SchemaTypes

/-- A natural number as a value. -/
def Json.ofNat (n : Nat) : Json := .int n

/-! ## Reading -/

/-- The event about a block that is left out. -/
def Prisma.BlockFault.event (fault : Prisma.BlockFault) : Event :=
  let fields := match fault with
    | .unclosed _ _ line _ => [("line", Json.ofNat line), ("reason", .str "unbalanced")]
    | fault => [("reason", .str fault.message)]
  { level := .warning, name := "block_skipped"
    fields := [("keyword", .str fault.keyword.text), ("name", .str fault.name)] ++ fields }

/-- The events about a module that was loaded. -/
def LoadedModule.events (m : LoadedModule) : List Event :=
  let path : String × Json := ("path", .str m.path.toString)
  let introspected : List Event := match m.printed with
    | some length =>
      [{ level := .debug, name := "node_module_introspected"
         fields := [path, ("bytes", Json.ofNat length)] }]
    | none => []
  let yielded : List Event := match m.contract with
    | .error fault =>
      [{ level := .warning, name := "module_skipped"
         fields := [path, ("reason", .str (fault.message m.path))] }]
    | .ok contract =>
      if contract.models.isEmpty then
        [{ level := .debug, name := "module_without_schema", fields := [path] }]
      else []
  introspected ++ yielded

/-- The events of reading a source that ends the run: those about the modules that were loaded. -/
def SchemaSource.eventsBeforeEnd (ws : Workspace) (location : Path) (source : SchemaSource) :
    List Event :=
  match ws.tree.lookFault? location, source with
  | none, .mongoose search =>
    match Mongoose.moduleFiles ws.tree search location with
    | .ok files => (Mongoose.loadedBefore ws search.loader files).flatMap LoadedModule.events
    | .error _ => []
  | _, _ => []

/-- The events of reading a source. -/
def Reading.events (r : Reading) : List Event :=
  match r with
  | .prisma schema =>
    schema.faults.map Prisma.BlockFault.event ++
      [{ level := .info, name := "prisma_schema_parsed"
         fields := [("models", Json.ofNat schema.models.length),
           ("enums", Json.ofNat schema.enums.length),
           ("skipped", Json.ofNat schema.faults.length)] }]
  | .mongoose modules =>
    modules.flatMap LoadedModule.events ++
      [{ level := .info, name := "mongoose_models_parsed"
         fields := [("files", Json.ofNat modules.length),
           ("models", Json.ofNat r.raw.models.length),
           ("skipped", Json.ofNat r.raw.issues.length)] }]

/-! ## Output -/

/-- The events about the models of a batch that are left out, up to the model that ends the run. -/
def skippedAfter (seen : List RawModel) : List RawModel → List Event
  | [] => []
  | raw :: raws =>
    if seen.any fun other => other.name == raw.name then []
    else
      match Model.ofRaw raw with
      | .ok _ => skippedAfter (seen ++ [raw]) raws
      | .error (.issue i) =>
        { level := .warning, name := "model_skipped"
          fields := [("model", .str raw.name), ("reason", .str i.message)] } ::
            skippedAfter (seen ++ [raw]) raws
      | .error _ => []

/-- The events of normalizing a batch. -/
def batchEvents (raws : List RawModel) : List Event :=
  skippedAfter [] raws ++
    match Model.batch raws with
    | .ok (models, issues) =>
      [{ level := .debug, name := "models_normalized"
         fields := [("count", Json.ofNat models.length), ("skipped", Json.ofNat issues.length)] }]
    | .error _ => []

/-- The event about a cycle. -/
def cycleEvent (cycle : List String) : Event :=
  { level := .info, name := "cycle_detected"
    fields := [("cycle", .str (References.cycleText cycle))] }

/-- The event about a finished output. -/
def Output.event (settings : Settings) (output : Output) : Event :=
  { level := .info, name := "models_parsed"
    fields := [("orm", .str settings.sourceKind.text),
      ("models", Json.ofNat output.models.length), ("enums", Json.ofNat output.enums.length),
      ("documents", Json.ofNat output.documents.length),
      ("warnings", Json.ofNat output.issues.length)] }

/-- The events of turning a raw schema into an output. -/
def outputEvents (settings : Settings) (raw : RawSchema) : List Event :=
  batchEvents raw.models ++
    match Model.batch raw.models with
    | .error _ => []
    | .ok (models, _) =>
      (References.analyze models).cycles.map cycleEvent ++
        match Output.ofRaw settings raw with
        | .ok output => [output.event settings]
        | .error _ => []

/-- The events of building an output. -/
def buildEvents (ws : Workspace) (settings : Settings) (input : Input) : List Event :=
  match input with
  | .given raw => outputEvents settings raw
  | .source =>
    let source := SchemaSource.ofSettings settings
    match source.read ws settings.schemaPath with
    | .ok reading => reading.events ++ outputEvents settings reading.raw
    | .error _ => source.eventsBeforeEnd ws settings.schemaPath

/-! ## Generation -/

/-- The events of writing documents to files. -/
def writingEvents {σ : Type} (output : Output) (writing : Writing σ) : List Event :=
  let stored : List Event := writing.written.map fun d =>
    { level := .debug, name := "document_written"
      fields := [("path", .str d.path.toString), ("bytes", Json.ofNat d.content.length)] }
  let last : List Event := match writing.failure, writing.broken with
    | some (d, reason), _ =>
      [{ level := .error, name := "document_write_failed"
         fields := [("path", .str d.path.toString), ("error", .str reason)] }]
    | none, some _ => []
    | none, none =>
      [{ level := .info, name := "generation_complete"
         fields := [("written", Json.ofNat writing.written.length),
           ("warnings", Json.ofNat output.issues.length)] }]
  stored ++ last

/-- The events of a generation that writes to files, or that writes nothing. -/
def generateEvents (ws : Workspace) (settings : Settings) (input : Input) (dryRun : Bool) :
    List Event :=
  buildEvents ws settings input ++
    match Output.build ws settings input with
    | .error (.issue i) =>
      [{ level := .error, name := "generation_failed"
         fields := [("code", .str i.code.text), ("message", .str i.message)] }]
    | .error _ => []
    | .ok output =>
      if dryRun then []
      else writingEvents output (writeAll Writer.toFiles ws.tree output.documents)

end SchemaTypes
