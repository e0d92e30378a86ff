import SchemaTypes.Model.Record
import SchemaTypes.Problem
import SchemaTypes.Raw.Basic

/-!
# Normalization

Normalization turns raw models into models. A field needs a name and exactly one shape, and fields
that stand side by side need different names. In a batch a model that cannot be normalized is left
out and reported, while two models of one name end the run. Of the enums of one name the first one
that is valid counts.

Results: `ofRaw_name`, a normalized field keeps its name.
-/

namespace SchemaTypes

/-! ## Fields -/

/-- Why a raw field is no field. A label is the name of a field after that of its owner. -/
inductive FieldFault where
  | unnamed (owner : String)
  | shapeless (label : String) (token : Option String)
  | manyShapes (label : String)
  | illTyped (label : String)
  | repeated (label : String)
  deriving DecidableEq, Repr

namespace FieldFault

/-- What a message says about the field. -/
def message : FieldFault → String
  | unnamed owner => "Field in '" ++ owner ++ "' has no name"
  | shapeless label token =>
    "Field '" ++ label ++ "' has no resolvable type (token: " ++ Text.quotedOrNone token ++ ")"
  | manyShapes label => "Field '" ++ label ++ "' claims more than one shape"
  | illTyped label => "Field '" ++ label ++ "' is malformed"
  | repeated label => "Field '" ++ label ++ "' is declared more than once"

/-- The element that the fault names. -/
def element : FieldFault → Option String
  | unnamed owner => if owner == "" then none else some owner
  | shapeless label _ | manyShapes label | illTyped label | repeated label => some label

/-- The issue about the field. -/
def issue (fault : FieldFault) : Issue :=
  .malformedField fault.message none fault.element

end FieldFault

/-- The name of a field after that of its owner, if it has one. -/
def fieldLabel (owner name : String) : String :=
  if owner == "" then name else owner ++ "." ++ name

/-- The first name that stands for a second time. -/
def firstRepeated? : (seen : List String) → List String → Option String
  | _, [] => none
  | seen, name :: names =>
    if seen.contains name then some name else firstRepeated? (seen ++ [name]) names

/-- Fields that stand side by side, unless two of them share a name. -/
def siblings (owner : String) (fields : List Field) : Except FieldFault (List Field) :=
  match firstRepeated? [] (fields.map (·.name)) with
  | some name => .error (.repeated (owner ++ "." ++ name))
  | none => .ok fields

/-- The item that the attributes describe, once it is known that they describe one. -/
def RawField.item (raw : RawField) (fields : List Field) : ItemType :=
  match raw.enumValues, raw.target, raw.nested with
  | some values, _, _ => .enum raw.enumName values
  | _, some target, _ => .reference target
  | _, _, some _ => .object fields
  | _, _, _ => .scalar (raw.scalar.getD .unknown)

/-- A field from a raw field with exactly one shape and the fields that it nests. -/
def Field.ofRaw (raw : RawField) (name : String) (fields : List Field) : Field :=
  { name
    required := raw.required.getD true
    shape := if raw.isArray.getD false then .array (raw.item fields) false
      else .single (raw.item fields)
    isSelfReference := false
    defaultValue := raw.defaultValue
    isPrimary := raw.isPrimary.getD false
    isUnique := raw.isUnique.getD false
    description := raw.description }

theorem Field.ofRaw_name (raw : RawField) (name : String) (fields : List Field) :
    (Field.ofRaw raw name fields).name = name := rfl

/-- The name of a raw field, and whether its shape can be told. -/
def RawField.usable (owner : String) (raw : RawField) : Except FieldFault String :=
  match raw.name with
  | none | some "" => .error (.unnamed owner)
  | some name =>
    let label := fieldLabel owner name
    if raw.shapeCount == 0 then .error (.shapeless label raw.typeToken)
    else if 1 < raw.shapeCount then .error (.manyShapes label)
    else .ok name

mutual

/-- A normalized field. `owner` is the label of the model or field around it. -/
def normalizeField (owner : String) : RawField → Except FieldFault Field
  | ⟨name, scalar, required, isArray, enumName, enumValues, target, nested, defaultValue,
      isPrimary, isUnique, description, typeToken, illTyped⟩ => do
    let raw : RawField := ⟨name, scalar, required, isArray, enumName, enumValues, target, nested,
      defaultValue, isPrimary, isUnique, description, typeToken, illTyped⟩
    let name ← raw.usable owner
    let label := fieldLabel owner name
    let fields ← match nested with
      | some raws => (normalizeEach label raws).bind (siblings label)
      | none => pure []
    if illTyped then throw (.illTyped label)
    return .ofRaw raw name fields

/-- Normalized fields, each for itself. -/
def normalizeEach (owner : String) : List RawField → Except FieldFault (List Field)
  | [] => .ok []
  | raw :: raws => do
    let field ← normalizeField owner raw
    let fields ← normalizeEach owner raws
    return field :: fields

end

/-- A step of a computation that may fail, read off its result. -/
theorem bind_eq_ok_iff {ε α β : Type} {x : Except ε α} {f : α → Except ε β} {b : β} :
    x.bind f = .ok b ↔ ∃ a, x = .ok a ∧ f a = .ok b := by
  cases x <;> simp [Except.bind]

/-- A computation that may fail under a map, read off its result. -/
theorem map_eq_ok_iff {ε α β : Type} {x : Except ε α} {f : α → β} {b : β} :
    x.map f = .ok b ↔ ∃ a, x = .ok a ∧ f a = b := by
  cases x <;> simp [Except.map]

/-! ## Models -/

/-- A text that is not empty. -/
def Checked.nonempty (s : String) : Checked String :=
  if s == "" then .fault .emptyText else .ok s

theorem Checked.nonempty_ok_iff {s t : String} : Checked.nonempty s = .ok t ↔ s ≠ "" ∧ t = s := by
  unfold Checked.nonempty
  by_cases h : s = ""
  · simp [h, Checked.fault]
  · simp only [h, beq_iff_eq, if_false, Checked.ok.injEq, ne_eq, not_false_eq_true, true_and]
    exact eq_comm

/-- A normalized model. -/
def Model.ofRaw (raw : RawModel) : Except Problem Model :=
  match (normalizeEach raw.name raw.fields).bind (siblings raw.name) with
  | .error fault => .error (.issue fault.issue)
  | .ok fields =>
    let checked : Checked Model :=
      (fun name sourceKind => Model.mk name fields sourceKind raw.sourcePath raw.description)
        <$> (Checked.nonempty raw.name).below "name"
        <*> (Check.literal SourceKind.choices (.str raw.sourceKind)).below "source_kind"
    match checked with
    | .ok model => .ok model
    | .faulty faults => .error (.invalid faults)

/-- An issue about one model of a batch, completed by the path and name of the model. -/
def RawModel.complete (raw : RawModel) (i : Issue) : Issue :=
  { i with
    path := match i.path with
      | none | some "" => raw.sourcePath
      | path => path
    element := match i.element with
      | none | some "" => some raw.name
      | element => element }

/-- The normalized models of a batch and an issue for each model that is left out. `seen` holds the
raw models before. -/
def Model.batchAfter (seen : List RawModel) :
    List RawModel → Except Problem (List Model × List Issue)
  | [] => .ok ([], [])
  | raw :: raws =>
    let same := seen.filter fun other => other.name == raw.name
    if same.isEmpty then
      match Model.ofRaw raw with
      | .ok model => do
        let (models, issues) ← batchAfter (seen ++ [raw]) raws
        return (model :: models, issues)
      | .error (.issue i) => do
        let (models, issues) ← batchAfter (seen ++ [raw]) raws
        return (models, raw.complete i :: issues)
      | .error problem => .error problem
    else
      .error (.issue (.duplicateModel raw.name ((same ++ [raw]).map (·.sourcePath))))

/-- The normalized models of a batch and an issue for each model that is left out. -/
def Model.batch (raws : List RawModel) : Except Problem (List Model × List Issue) :=
  Model.batchAfter [] raws

/-! ## Enums -/

/-- A declared enum from a raw one. -/
def EnumDefinition.ofRaw (raw : RawEnum) : Checked EnumDefinition :=
  (fun name values => EnumDefinition.mk name values raw.sourcePath)
    <$> (Checked.nonempty raw.name).below "name"
    <*> (Check.enumValues (if raw.illTyped then .fault .notText else .ok raw.values)).below "values"

/-- What is known about the enums of a run so far. -/
structure EnumTable where
  enums : List EnumDefinition := []
  issues : List Issue := []
  deriving DecidableEq, Repr, Inhabited

namespace EnumTable

/-- The enum of the given name. -/
def find? (t : EnumTable) (name : String) : Option EnumDefinition :=
  t.enums.find? fun e => e.name == name

/-- The table with a further issue. -/
def report (t : EnumTable) (i : Issue) : EnumTable :=
  { t with issues := t.issues ++ [i] }

/-- The table after one more raw enum. -/
def add (t : EnumTable) (raw : RawEnum) : EnumTable :=
  match EnumDefinition.ofRaw raw with
  | .faulty faults =>
    let text := (faults.head?.map fun f => f.kind.message).getD ""
    t.report { code := .schemaParseError, stage := .normalize, path := raw.sourcePath
               message := "Enum '" ++ raw.name ++ "' is malformed: " ++ text
               element := some raw.name }
  | .ok e =>
    match t.find? e.name with
    | none => { t with enums := t.enums ++ [e] }
    | some kept =>
      if kept.values == e.values then t
      else
        t.report { code := .duplicateEnum, stage := .normalize, path := raw.sourcePath
                   message := "Enum '" ++ e.name ++ "' redeclared with different values; keeping " ++
                     Text.quotedList kept.values
                   element := some e.name }

/-- The enums of a run, each name once, and what was wrong with the others. -/
def collect (raws : List RawEnum) : EnumTable :=
  raws.foldl add {}

end EnumTable

end SchemaTypes
