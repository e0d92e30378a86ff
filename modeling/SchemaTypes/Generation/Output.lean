import SchemaTypes.Declaration.Document
import SchemaTypes.Model.Normalization
import SchemaTypes.References.Analysis
import SchemaTypes.Settings

/-!
# Output

A raw schema becomes a set of documents in four steps: its models are normalized, its enums
collected, its references analyzed and its declarations written. Without a single model there is no
output.
-/

namespace SchemaTypes

/-- A document and the place where it belongs. -/
structure Document where
  path : Path
  content : String
  deriving DecidableEq, Inhabited

/-- The documents of a run, what they declare, and the warnings of all steps. -/
structure Output where
  documents : List Document
  models : List Model
  enums : List EnumDefinition
  cycles : List (List String)
  issues : List Issue

/-- The path of the only document: the output path itself if it names a declaration file, and the
index in that directory otherwise. -/
def combinedPath (output : Path) : Path :=
  if output.extension == ".ts" then output
  else output.joinText (Declaration.fileName Declaration.indexModule)

/-- The documents of a batch at their places. -/
def documentsOf (settings : Settings) (models : List Model) (enums : List EnumDefinition) :
    Except Issue (List Document) :=
  match settings.outputMode with
  | .combined =>
    .ok [{ path := combinedPath settings.outputPath
           content := Declaration.combined models enums settings.style }]
  | .perModel =>
    (Declaration.perModel models enums settings.style).map fun documents =>
      documents.map fun (name, text) =>
        { path := settings.outputPath.joinText name, content := text }

/-- The output for a raw schema. -/
def Output.ofRaw (settings : Settings) (raw : RawSchema) : Except Problem Output := do
  let (models, modelIssues) ← Model.batch raw.models
  if models.isEmpty then
    throw (.issue (.noModelsFound (some settings.schemaPath.toString)))
  let table := EnumTable.collect raw.enums
  let analysis := References.analyze models
  let documents ← (documentsOf settings analysis.models table.enums).mapError Problem.issue
  return { documents, models := analysis.models, enums := table.enums, cycles := analysis.cycles
           issues := raw.issues ++ modelIssues ++ table.issues ++ analysis.issues }

end SchemaTypes
