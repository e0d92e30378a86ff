import SchemaTypes.Json.Basic

/-!
# Issues

An issue is what a run has to say about its input: a code, the stage that found it and a message.
An issue with a fatal code ends the run; every other issue is a warning, and the run goes on
without the part that it names.
-/

namespace SchemaTypes

/-- What an issue is about. -/
inductive ErrorCode where
  | sourceNotFound
  | sourceUnreadable
  | noModelsFound
  | duplicateModel
  | outputUnwritable
  | outputNameConflict
  | invalidOptions
  | schemaParseError
  | moduleLoadError
  | malformedField
  | duplicateEnum
  | cycleDetected
  | unresolvedReference
  deriving DecidableEq, Repr, Inhabited

namespace ErrorCode

/-- The codes in their order: fatal ones, then those that cost a part of the input, then advice. -/
def all : List ErrorCode :=
  [sourceNotFound, sourceUnreadable, noModelsFound, duplicateModel, outputUnwritable,
    outputNameConflict, invalidOptions, schemaParseError, moduleLoadError, malformedField,
    duplicateEnum, cycleDetected, unresolvedReference]

/-- The code as it is written. -/
def text : ErrorCode → String
  | sourceNotFound => "SOURCE_NOT_FOUND"
  | sourceUnreadable => "SOURCE_UNREADABLE"
  | noModelsFound => "NO_MODELS_FOUND"
  | duplicateModel => "DUPLICATE_MODEL"
  | outputUnwritable => "OUTPUT_UNWRITABLE"
  | outputNameConflict => "OUTPUT_NAME_CONFLICT"
  | invalidOptions => "INVALID_OPTIONS"
  | schemaParseError => "SCHEMA_PARSE_ERROR"
  | moduleLoadError => "MODULE_LOAD_ERROR"
  | malformedField => "MALFORMED_FIELD"
  | duplicateEnum => "DUPLICATE_ENUM"
  | cycleDetected => "CYCLE_DETECTED"
  | unresolvedReference => "UNRESOLVED_REFERENCE"

/-- The code that a text names. -/
def ofText? (s : String) : Option ErrorCode :=
  all.find? fun code => code.text == s

/-- Whether an issue with this code ends the run. -/
def isFatal : ErrorCode → Bool
  | sourceNotFound | sourceUnreadable | noModelsFound | duplicateModel | outputUnwritable
  | outputNameConflict | invalidOptions => true
  | _ => false

/-- The status with which a command ends that failed with this code. -/
def exitStatus : ErrorCode → Nat
  | sourceNotFound | sourceUnreadable => 2
  | noModelsFound => 3
  | duplicateModel | outputNameConflict => 4
  | outputUnwritable => 5
  | invalidOptions => 6
  | _ => 1

end ErrorCode

/-- The stage of a run. -/
inductive Stage where
  | read
  | parse
  | normalize
  | analyze
  | render
  | write
  deriving DecidableEq, Repr, Inhabited

namespace Stage

/-- The stages in their order. -/
def all : List Stage := [read, parse, normalize, analyze, render, write]

/-- The stage as it is written. -/
def text : Stage → String
  | read => "read"
  | parse => "parse"
  | normalize => "normalize"
  | analyze => "analyze"
  | render => "render"
  | write => "write"

end Stage

/-- One thing that a run has to say. The path is that of the source or output, the element is a
model, enum, field or module, and only a reference cycle has a cycle path. -/
structure Issue where
  code : ErrorCode
  message : String
  stage : Stage
  path : Option String := none
  element : Option String := none
  cyclePath : Option (List String) := none
  deriving DecidableEq, Repr, Inhabited

namespace Issue

/-- The source of the schema is missing. -/
def sourceNotFound (path : String) : Issue :=
  { code := .sourceNotFound, stage := .read, path := some path
    message := "Schema source not found: " ++ path }

/-- The source of the schema is there and cannot be read. -/
def sourceUnreadable (message : String) (path element : Option String := none) : Issue :=
  { code := .sourceUnreadable, stage := .read, message, path, element }

/-- Nothing is left to declare. -/
def noModelsFound (path : Option String) : Issue :=
  { code := .noModelsFound, stage := .parse, path, message := "No models found" }

/-- A name stands for two models. The paths are those of all its declarations so far. -/
def duplicateModel (name : String) (paths : List (Option String)) : Issue :=
  let known := (paths.filterMap id).filter (· != "")
  let place := if known.isEmpty then "same source" else ", ".intercalate known
  { code := .duplicateModel, stage := .normalize
    message := "Model '" ++ name ++ "' is declared more than once (" ++ place ++ ")"
    path := paths.getLast?.join
    element := some name }

/-- A document could not be stored. -/
def outputUnwritable (path reason : String) : Issue :=
  { code := .outputUnwritable, stage := .write, path := some path
    message := "Failed to write " ++ path ++ ": " ++ reason }

/-- The document of a model would take the place of another document. -/
def outputNameConflict (name document : String) (path : Option String) : Issue :=
  { code := .outputNameConflict, stage := .render, path, element := some name
    message := "Model '" ++ name ++ "' would overwrite the generated '" ++ document ++
      "' document; rename the model or use combined output" }

/-- The options are not usable. -/
def invalidOptions (message : String) (path : Option String := none) : Issue :=
  { code := .invalidOptions, stage := .read, message, path }

/-- A block or module cannot be read. -/
def schemaParseError (message : String) (path element : Option String := none) : Issue :=
  { code := .schemaParseError, stage := .parse, message, path, element }

/-- A module yields no contract. -/
def moduleLoadError (message : String) (path element : Option String := none) : Issue :=
  { code := .moduleLoadError, stage := .parse, message, path, element }

/-- A field has no single shape. -/
def malformedField (message : String) (path element : Option String := none) : Issue :=
  { code := .malformedField, stage := .normalize, message, path, element }

/-- The issue as a value. -/
def toJson (i : Issue) : Json :=
  .obj [("code", .str i.code.text), ("message", .str i.message), ("stage", .str i.stage.text),
    ("path", Json.ofText? i.path), ("element_id", Json.ofText? i.element),
    ("cycle_path", match i.cyclePath with
      | some path => Json.ofTexts path
      | none => .null)]

end Issue

end SchemaTypes
