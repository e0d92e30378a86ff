import SchemaTypes.Fault
import SchemaTypes.Json.Reader
import SchemaTypes.Model.Basic
import SchemaTypes.Mongoose.Definition
import SchemaTypes.Path
import SchemaTypes.Text.Case

/-!
# Contracts

A contract describes the models of one module: for each its name, its field map and the paths of the
fields that are required. A model without name is named after the module. Contracts are checked
before use; further entries are accepted in a model and refused elsewhere.
-/

namespace SchemaTypes.Mongoose

/-- One model of a contract. -/
structure ContractModel where
  name : Option String
  fields : Entries
  requiredPaths : List String

/-- What is known about a module. -/
structure Contract where
  source : Option String
  models : List ContractModel

/-- The version of contracts in use. -/
def contractVersion : Nat := 1

namespace Contract

/-- The version of a contract, the only one there is. -/
def version : Json → Checked Unit
  | .int 1 => .ok ()
  | .bool true => .ok ()
  | .float x => if x == 1.0 then .ok () else .fault (.notLiteral [toString contractVersion])
  | _ => .fault (.notLiteral [toString contractVersion])

/-- A mapping from texts to anything. -/
def mapping : Json → Checked Entries
  | .obj entries => .ok entries
  | _ => .fault .notMapping

/-- One model of a contract. -/
def model : Json → Checked ContractModel
  | .obj entries =>
    ContractModel.mk <$> Check.optional "name" none (Check.nullable Check.text) entries
      <*> Check.required "fields" mapping entries
      <*> Check.optional "required_paths" [] (Check.items .notArray Check.text) entries
  | _ => .fault .notObject

/-- A contract. -/
def check : Json → Checked Contract
  | .obj entries =>
    let checked : Checked Contract :=
      (fun _ source models => ⟨source, models⟩)
        <$> Check.optional "contract_version" () version entries
        <*> Check.optional "source" none (Check.nullable Check.text) entries
        <*> Check.required "models" (Check.items .notArray model) entries
    Check.also checked (Check.noOthers ["contract_version", "source", "models"] entries)
  | _ => .fault .notObject

/-- The contract that a text spells. -/
def ofText (text : String) : Checked Contract :=
  match Json.read? Json.contractRules text with
  | some v => check v
  | none => .fault .notJson

end Contract

/-- The name of a model in a file without a name for it: that of the file up to its first point, with
a capital. -/
def modelNameOf (path : Path) : String :=
  Text.capitalize (String.ofList (path.name.toList.takeWhile (· != '.')))

/-- The raw model that a contract describes. -/
def ContractModel.raw (m : ContractModel) (path : Path) : RawModel :=
  { name := match m.name with
      | none | some "" => modelNameOf path
      | some name => name
    fields := fieldsOfMap m.requiredPaths "" m.fields
    sourceKind := SourceKind.mongoose.text
    sourcePath := some path.toString }

/-- The raw models that a contract describes. -/
def Contract.raw (c : Contract) (path : Path) : List RawModel :=
  c.models.map fun m => m.raw path

end SchemaTypes.Mongoose
