import SchemaTypes.Mongoose.Contract
import SchemaTypes.Mongoose.Introspection
import SchemaTypes.Problem
import SchemaTypes.Text.Blank

/-!
# Modules

A module is a file that yields a contract: either the file is the contract, or a child process
introspects it. A module that yields none is left out with a warning, and the others are not
affected. Only a process that prints bytes that are no text is not taken for a module without a
contract: it ends the run.
-/

namespace SchemaTypes.Mongoose

/-- Why a module yields no contract. -/
inductive ModuleFault where
  | unreadable (reason : String)
  | invalid (place message : String)
  | timedOut (seconds : String)
  | notStarted (executable reason : String)
  | failed (reason : String)
  deriving DecidableEq, Repr

/-- What a message says about the module at a path. -/
def ModuleFault.message (path : Path) : ModuleFault → String
  | unreadable reason => "Cannot read " ++ path.toString ++ ": " ++ reason
  | invalid place message =>
    "Invalid schema contract in " ++ path.toString ++ ": " ++ place ++ ": " ++ message
  | timedOut seconds => "Loading " ++ path.toString ++ " timed out after " ++ seconds ++ "s"
  | notStarted executable reason => "Cannot run " ++ executable ++ ": " ++ reason
  | failed reason => "Failed to load " ++ path.toString ++ ": " ++ reason

/-- The issue about the module at a path. -/
def ModuleFault.issue (path : Path) (fault : ModuleFault) : Issue :=
  .moduleLoadError (fault.message path) (some path.toString) (some path.name)

/-- The contract that a text spells, or its first fault. -/
def contractOf (text : String) : Except ModuleFault Contract :=
  match Contract.ofText text with
  | .ok contract => .ok contract
  | .faulty [] => .error (.invalid "document" "")
  | .faulty (fault :: _) =>
    let place := if fault.placeText == "" then "document" else fault.placeText
    .error (.invalid place fault.kind.message)

/-- The contract in a file. -/
def contractInFile (tree : FileTree) (path : Path) : Except ModuleFault Contract :=
  match tree.readText path with
  | .error e => .error (.unreadable e.message)
  | .ok text => contractOf text

/-- The last line that is not blank. -/
def lastLine? (text : String) : Option String :=
  (((Text.splitLines (Text.trim text.toList)).filter fun line =>
    !(Text.trim line).isEmpty).getLast?).map String.ofList

/-- The text that a process printed on a stream. -/
def textOf (stream : ByteArray) : Except Problem String :=
  match FileTree.decode stream with
  | some text => .ok text
  | none => .error .noText

/-- The contract that a process printed, or why there is none. Both streams are read before the status
is looked at. -/
def contractOfOutcome (runtime : Runtime) :
    ProcessOutcome → Except Problem (Except ModuleFault Contract)
  | .timedOut => .ok (.error (.timedOut runtime.timeout))
  | .notStarted errno =>
    .ok (.error (.notStarted runtime.executable (FileError.messageOf errno runtime.executable)))
  | .exited status output errors => do
    let output ← textOf output
    let errors ← textOf errors
    return if status == 0 then contractOf output
      else .error (.failed ((lastLine? errors).getD ("exit code " ++ toString status)))

/-- What the modules of a schema yield, and the modules that are left out. -/
structure Schema where
  models : List RawModel
  faults : List (Path × ModuleFault)

/-- The schema that is spread over modules, each with the contract that it yields. -/
def Schema.ofModules (modules : List (Path × Except ModuleFault Contract)) : Schema :=
  { models := modules.flatMap fun
      | (path, .ok contract) => contract.raw path
      | (_, .error _) => []
    faults := modules.filterMap fun
      | (_, .ok _) => none
      | (path, .error fault) => some (path, fault) }

/-- The schema as a raw schema, with an issue for each module that is left out. -/
def Schema.raw (s : Schema) : RawSchema :=
  { models := s.models, issues := s.faults.map fun (path, fault) => fault.issue path }

end SchemaTypes.Mongoose
