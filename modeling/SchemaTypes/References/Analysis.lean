import SchemaTypes.Issue
import SchemaTypes.References.Cycle

/-!
# Analysis of references

The analysis of a batch marks every reference of a model to itself and reports the reference cycles
and the references to names that no model has. Nothing of this changes what the models are.

Results: `markSelf_name`, marking keeps the name of a model; `analyze_models`, the analysis keeps
all models in their order.
-/

namespace SchemaTypes

/-! ## Self-references -/

/-- Whether the item is a reference to the owner. -/
def ItemType.refersTo (owner : String) : ItemType → Bool
  | .reference target => target == owner
  | _ => false

mutual

/-- The item with the references to its owner marked. -/
def ItemType.markSelf (owner : String) : ItemType → ItemType
  | .scalar kind => .scalar kind
  | .enum name values => .enum name values
  | .reference target => .reference target
  | .object fields => .object (markAll owner fields)

/-- The field with the references to its owner marked. -/
def Field.markSelf (owner : String) : Field → Field
  | ⟨name, required, .single item, isSelf, defaultValue, isPrimary, isUnique, description⟩ =>
    ⟨name, required, .single (item.markSelf owner), isSelf || item.refersTo owner, defaultValue,
      isPrimary, isUnique, description⟩
  | ⟨name, required, .array item elementSelf, isSelf, defaultValue, isPrimary, isUnique,
      description⟩ =>
    ⟨name, required, .array (item.markSelf owner) (elementSelf || item.refersTo owner), isSelf,
      defaultValue, isPrimary, isUnique, description⟩

/-- The fields with the references to their owner marked. -/
def markAll (owner : String) : List Field → List Field
  | [] => []
  | f :: fs => f.markSelf owner :: markAll owner fs

end

/-- The model with its references to itself marked. -/
def Model.markSelf (m : Model) : Model :=
  { m with fields := markAll m.name m.fields }

theorem Model.markSelf_name (m : Model) : m.markSelf.name = m.name := rfl

/-! ## Issues -/

namespace References

/-- The issue about a cycle. -/
def cycleIssue (cycle : List String) : Issue :=
  { code := .cycleDetected, stage := .analyze, element := cycle.head?, cyclePath := some cycle
    message := "Circular reference: " ++ cycleText cycle ++
      " (emitted as forward type references)" }

/-- The issue about a reference from the model to a name that no model has. -/
def unresolvedIssue (name target : String) (path : Option String) : Issue :=
  { code := .unresolvedReference, stage := .analyze, path, element := some name
    message := "Model '" ++ name ++ "' references unknown model '" ++ target ++ "'" }

/-- What the analysis of a batch yields. -/
structure Analysis where
  models : List Model
  graph : Graph
  cycles : List (List String)
  issues : List Issue

/-- The path of the last model of the given name. -/
def lastPath (models : List Model) (name : String) : Option String :=
  (models.reverse.find? fun m => m.name == name).bind (·.sourcePath)

/-- The analysis of a batch. -/
def analyze (models : List Model) : Analysis :=
  let marked := models.map Model.markSelf
  let graph := Graph.ofModels marked
  let cycles := graph.cycles
  { models := marked, graph, cycles
    issues := cycles.map cycleIssue ++ graph.order.flatMap fun name =>
      (graph.unresolved name).map fun target =>
        unresolvedIssue name target (lastPath marked name) }

theorem analyze_models (models : List Model) :
    (analyze models).models.map (·.name) = models.map (·.name) := by
  simp [analyze, Model.markSelf_name]

end References

end SchemaTypes
