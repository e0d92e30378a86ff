import SchemaTypes.Fault
import SchemaTypes.Issue
import SchemaTypes.Model.Basic
import SchemaTypes.Text.Quoted

/-!
# Models as records

A model is written as a record with one entry for every attribute, and a record is checked entry by
entry. A record may state several shapes at once, or none; the rules refuse what no field can be.
-/

namespace SchemaTypes

/-! ## Writing -/

/-- The entries that describe an item. -/
structure ItemEntries where
  scalar : Json := .null
  enumName : Json := .null
  enumValues : Json := .null
  target : Json := .null
  fields : Json := .null

/-- The record of an array element. -/
def ItemEntries.elementRecord (e : ItemEntries) (isSelfReference : Bool) : Json :=
  .obj [("scalar", e.scalar), ("enum_name", e.enumName), ("enum_values", e.enumValues),
    ("reference_target", e.target), ("nested_fields", e.fields),
    ("is_self_reference", .bool isSelfReference)]

/-- The record of a field. `single` describes the item of a field that is no array, `element` is the
record of the element of an array. -/
def fieldRecord (name : String) (required isArray : Bool) (single : ItemEntries) (element : Json)
    (isEnum isReference isSelfReference : Bool) (defaultValue : Option String)
    (isPrimary isUnique : Bool) (description : Option String) : Json :=
  .obj [("name", .str name), ("scalar", single.scalar), ("required", .bool required),
    ("is_array", .bool isArray), ("element", element), ("is_enum", .bool isEnum),
    ("enum_name", single.enumName), ("enum_values", single.enumValues),
    ("is_reference", .bool isReference), ("reference_target", single.target),
    ("is_self_reference", .bool isSelfReference), ("nested_fields", single.fields),
    ("default_value", Json.ofText? defaultValue), ("is_primary", .bool isPrimary),
    ("is_unique", .bool isUnique), ("description", Json.ofText? description)]

/-- Whether the item is an enum. -/
def ItemType.isEnum : ItemType → Bool
  | .enum _ _ => true
  | _ => false

/-- Whether the item is a reference. -/
def ItemType.isReference : ItemType → Bool
  | .reference _ => true
  | _ => false

mutual

/-- The entries that describe the item. -/
def ItemType.entries : ItemType → ItemEntries
  | .scalar kind => { scalar := .str kind.text }
  | .enum name values => { enumName := Json.ofText? name, enumValues := Json.ofTexts values }
  | .reference target => { target := .str target }
  | .object fields => { fields := .arr (fieldsToJson fields) }

/-- The field as a record. -/
def Field.toJson : Field → Json
  | ⟨name, required, .single item, isSelf, defaultValue, isPrimary, isUnique, description⟩ =>
    fieldRecord name required false item.entries .null item.isEnum item.isReference isSelf
      defaultValue isPrimary isUnique description
  | ⟨name, required, .array item elementSelf, isSelf, defaultValue, isPrimary, isUnique,
      description⟩ =>
    fieldRecord name required true {} (item.entries.elementRecord elementSelf) false false isSelf
      defaultValue isPrimary isUnique description

/-- The fields as records. -/
def fieldsToJson : List Field → List Json
  | [] => []
  | f :: fs => f.toJson :: fieldsToJson fs

end

/-- The model as a record. -/
def Model.toJson (m : Model) : Json :=
  .obj [("name", .str m.name), ("fields", .arr (fieldsToJson m.fields)),
    ("source_kind", .str m.sourceKind.text), ("source_path", Json.ofText? m.sourcePath),
    ("description", Json.ofText? m.description)]

/-- The enum as a record. -/
def EnumDefinition.toJson (e : EnumDefinition) : Json :=
  .obj [("name", .str e.name), ("values", Json.ofTexts e.values),
    ("source_path", Json.ofText? e.sourcePath)]

/-! ## Rules -/

/-- What a list of fields in `owner` breaks if two of them share a name. -/
def repeatedNames? (owner : String) (fields : List Field) : Option String :=
  match duplicates (fields.map (·.name)) with
  | [] => none
  | names => some ("Duplicate field names in " ++ owner ++ ": " ++ Text.quotedList names)

/-- A rule that has to hold before the rest. -/
def demand (holds : Bool) (text : String) : Except String Unit :=
  if holds then .ok () else .error text

/-- The statements of a record about an array element. -/
structure ElementRecord where
  scalar : Option ScalarKind
  enumName : Option String
  enumValues : Option (List String)
  target : Option String
  fields : Option (List Field)
  isSelfReference : Bool

/-- The item that an element record describes, or the rule that it breaks. -/
def ElementRecord.item (r : ElementRecord) : Except String ItemType := do
  let count := r.scalar.isSome.toNat + r.enumValues.isSome.toNat + r.target.isSome.toNat +
    r.fields.isSome.toNat
  demand (count == 1) "Array element must describe exactly one shape"
  if let some name := r.enumName then
    demand r.enumValues.isSome ("Element enum '" ++ name ++ "' has no values")
  match r.scalar, r.enumValues, r.target, r.fields with
  | _, some values, _, _ => return .enum r.enumName values
  | _, _, some target, _ => return .reference target
  | _, _, _, some fields =>
    match repeatedNames? "array element" fields with
    | some text => throw text
    | none => return .object fields
  | kind, _, _, _ => return .scalar (kind.getD .unknown)

/-- The statements of a record about a field. -/
structure FieldRecord where
  name : String
  scalar : Option ScalarKind
  required : Bool
  isArray : Bool
  element : Option (ItemType × Bool)
  isEnum : Bool
  enumName : Option String
  enumValues : Option (List String)
  isReference : Bool
  target : Option String
  isSelfReference : Bool
  fields : Option (List Field)
  defaultValue : Option String
  isPrimary : Bool
  isUnique : Bool
  description : Option String

namespace FieldRecord

/-- The shapes that the record states. -/
def claims (r : FieldRecord) : List String :=
  ([("scalar", r.scalar.isSome), ("enum", r.isEnum), ("reference", r.isReference),
    ("nested", r.fields.isSome), ("array", r.isArray)].filter (·.2)).map (·.1)

/-- The shape that the record describes, or the first rule that it breaks. -/
def shape (r : FieldRecord) : Except String Shape := do
  let name := "'" ++ r.name ++ "'"
  let stated := if r.claims.isEmpty then "none" else Text.quotedList r.claims
  demand (r.claims.length == 1) ("Field " ++ name ++ " must have exactly one shape, got " ++ stated)
  demand (!r.isArray || r.element.isSome) ("Array field " ++ name ++ " has no element type")
  demand (r.isArray || r.element.isNone)
    ("Field " ++ name ++ " has an element type but is not an array")
  demand (r.isEnum == r.enumValues.isSome) ("Field " ++ name ++ ": is_enum and enum_values disagree")
  if let some enumName := r.enumName then
    demand r.isEnum ("Field " ++ name ++ " names enum '" ++ enumName ++ "' but is not an enum")
  demand (r.isReference == r.target.isSome)
    ("Field " ++ name ++ ": is_reference and reference_target disagree")
  match r.element, r.enumValues, r.target, r.fields with
  | some (item, isSelf), _, _, _ => return .array item isSelf
  | _, some values, _, _ => return .single (.enum r.enumName values)
  | _, _, some target, _ => return .single (.reference target)
  | _, _, _, some fields =>
    match repeatedNames? ("field " ++ name) fields with
    | some text => throw text
    | none => return .single (.object fields)
  | _, _, _, _ => return .single (.scalar (r.scalar.getD .unknown))

/-- The field that the record describes. -/
def field (r : FieldRecord) : Except String Field := do
  return { name := r.name, required := r.required, shape := ← r.shape
           isSelfReference := r.isSelfReference, defaultValue := r.defaultValue
           isPrimary := r.isPrimary, isUnique := r.isUnique, description := r.description }

end FieldRecord

/-! ## Checking -/

/-- A value that keeps the rules, or the rule that it breaks. -/
def Checked.ofRule {α : Type} : Except String α → Checked α
  | .ok a => .ok a
  | .error text => .fault (.rule text)

/-- The keys of a field record. -/
def fieldKeys : List String :=
  ["name", "scalar", "required", "is_array", "element", "is_enum", "enum_name", "enum_values",
    "is_reference", "reference_target", "is_self_reference", "nested_fields", "default_value",
    "is_primary", "is_unique", "description"]

/-- The keys of an element record. -/
def elementKeys : List String :=
  ["scalar", "enum_name", "enum_values", "reference_target", "nested_fields",
    "is_self_reference"]

namespace Check

/-- A scalar kind, or null. -/
def scalar? : Json → Checked (Option ScalarKind) :=
  nullable (member ScalarKind.all ScalarKind.text)

/-- A text, or null. -/
def text? : Json → Checked (Option String) :=
  nullable text

/-- A tuple of texts, or null. -/
def texts? : Json → Checked (Option (List String)) :=
  nullable (items .notTuple text)

/-- A field from the entries of its record. The parts that hold records again are checked before:
`element` and `fields` are their outcomes. -/
def fieldEntries (entries : List (String × Json)) (element : Checked (Option (ItemType × Bool)))
    (fields : Checked (Option (List Field))) : Checked Field :=
  let checked : Checked FieldRecord :=
    FieldRecord.mk <$> required "name" name entries
      <*> optional "scalar" none scalar? entries
      <*> optional "required" true boolean entries
      <*> optional "is_array" false boolean entries
      <*> element.below "element"
      <*> optional "is_enum" false boolean entries
      <*> optional "enum_name" none text? entries
      <*> optional "enum_values" none texts? entries
      <*> optional "is_reference" false boolean entries
      <*> optional "reference_target" none text? entries
      <*> optional "is_self_reference" false boolean entries
      <*> fields.below "nested_fields"
      <*> optional "default_value" none text? entries
      <*> optional "is_primary" false boolean entries
      <*> optional "is_unique" false boolean entries
      <*> optional "description" none text? entries
  (also checked (noOthers fieldKeys entries)).andThen fun r => Checked.ofRule r.field

/-- An array element from the entries of its record. -/
def elementEntries (entries : List (String × Json)) (fields : Checked (Option (List Field))) :
    Checked (ItemType × Bool) :=
  let checked : Checked ElementRecord :=
    ElementRecord.mk <$> optional "scalar" none scalar? entries
      <*> optional "enum_name" none text? entries
      <*> optional "enum_values" none texts? entries
      <*> optional "reference_target" none text? entries
      <*> fields.below "nested_fields"
      <*> optional "is_self_reference" false boolean entries
  (also checked (noOthers elementKeys entries)).andThen fun r =>
    Checked.ofRule (r.item.map fun item => (item, r.isSelfReference))

mutual

/-- A field. -/
def field : Json → Checked Field
  | .obj entries => fieldEntries entries (elementIn entries) (fieldsIn entries)
  | _ => .fault (.notRecord "NormalizedField")

/-- The element of a field record; without the entry there is none. -/
def elementIn : List (String × Json) → Checked (Option (ItemType × Bool))
  | [] => .ok none
  | (key, v) :: rest => if key = "element" then element? v else elementIn rest

/-- The fields that a record nests; without the entry there are none. -/
def fieldsIn : List (String × Json) → Checked (Option (List Field))
  | [] => .ok none
  | (key, v) :: rest => if key = "nested_fields" then fields? v else fieldsIn rest

/-- An array element, or null. -/
def element? : Json → Checked (Option (ItemType × Bool))
  | .null => .ok none
  | .obj entries => (elementEntries entries (fieldsIn entries)).map some
  | _ => .fault (.notRecord "ElementType")

/-- A tuple of fields, or null. -/
def fields? : Json → Checked (Option (List Field))
  | .null => .ok none
  | .arr vs => (fieldsFrom 0 vs).map some
  | _ => .fault .notTuple

/-- Fields, counted from the given number. -/
def fieldsFrom (n : Nat) : List Json → Checked (List Field)
  | [] => .ok []
  | v :: vs => (((field v).below (toString n)).map List.cons).seq (fieldsFrom (n + 1) vs)

end

/-- An array element. -/
def element : Json → Checked (ItemType × Bool)
  | .obj entries => elementEntries entries (fieldsIn entries)
  | _ => .fault (.notRecord "ElementType")

/-- The fields of a model. -/
def modelFields : Json → Checked (List Field)
  | .arr vs => (fieldsFrom 0 vs).keeping (repeatedNames? "model")
  | _ => .fault .notTuple

/-- A model. -/
def model : Json → Checked Model
  | .obj entries =>
    let checked : Checked Model :=
      Model.mk <$> required "name" name entries
        <*> required "fields" modelFields entries
        <*> required "source_kind" (literal SourceKind.choices) entries
        <*> optional "source_path" none text? entries
        <*> optional "description" none text? entries
    also checked (noOthers ["name", "fields", "source_kind", "source_path", "description"] entries)
  | _ => .fault (.notRecord "NormalizedModel")

/-- What the values of an enum break if two are the same. -/
def repeatedValues? (values : List String) : Option String :=
  match duplicates values with
  | [] => none
  | again => some ("Duplicate enum values: " ++ Text.quotedList again)

/-- At least one value, each once. -/
def enumValues (values : Checked (List String)) : Checked (List String) :=
  (values.andThen fun vs => if vs.isEmpty then .fault .emptyTuple else .ok vs).keeping
    repeatedValues?

/-- A declared enum. -/
def enumDefinition : Json → Checked EnumDefinition
  | .obj entries =>
    let checked : Checked EnumDefinition :=
      EnumDefinition.mk <$> required "name" name entries
        <*> required "values" (fun v => enumValues (items .notTuple text v)) entries
        <*> optional "source_path" none text? entries
    also checked (noOthers ["name", "values", "source_path"] entries)
  | _ => .fault (.notRecord "EnumDefinition")

/-- An issue. Other entries do not matter. -/
def issue : Json → Checked Issue
  | .obj entries =>
    Issue.mk <$> required "code" (member ErrorCode.all ErrorCode.text) entries
      <*> required "message" text entries
      <*> required "stage" (member Stage.all Stage.text) entries
      <*> optional "path" none text? entries
      <*> optional "element_id" none text? entries
      <*> optional "cycle_path" none (nullable (items .notList text)) entries
  | _ => .fault (.notRecord "Issue")

end Check

end SchemaTypes
