import SchemaTypes.Fault
import SchemaTypes.Json.Writer
import SchemaTypes.Raw.Basic

/-!
# Raw models as records

A raw model is written as a record with one entry for every attribute. Records from outside are
taken as they come: an entry that is left out is null, what stands for a truth value is read by its
truth, and a value that the shape cannot use makes the field ill-typed.
-/

namespace SchemaTypes

/-! ## Writing -/

/-- A truth value that may be missing. -/
def Json.ofBool? : Option Bool → Json
  | some b => .bool b
  | none => .null

mutual

/-- The raw field as a record. -/
def RawField.toJson : RawField → Json
  | ⟨name, scalar, required, isArray, enumName, enumValues, target, nested, defaultValue,
      isPrimary, isUnique, description, typeToken, _⟩ =>
    .obj [("name", Json.ofText? name), ("scalar", Json.ofText? (scalar.map ScalarKind.text)),
      ("required", Json.ofBool? required), ("is_array", Json.ofBool? isArray),
      ("enum_name", Json.ofText? enumName),
      ("enum_values", match enumValues with
        | some values => Json.ofTexts values
        | none => .null),
      ("reference_target", Json.ofText? target),
      ("nested", match nested with
        | some fields => .arr (rawFieldsToJson fields)
        | none => .null),
      ("default_value", Json.ofText? defaultValue), ("is_primary", Json.ofBool? isPrimary),
      ("is_unique", Json.ofBool? isUnique), ("description", Json.ofText? description),
      ("type_token", Json.ofText? typeToken)]

/-- The raw fields as records. -/
def rawFieldsToJson : List RawField → List Json
  | [] => []
  | f :: fs => f.toJson :: rawFieldsToJson fs

end

/-- The raw model as a record. -/
def RawModel.toJson (m : RawModel) : Json :=
  .obj [("name", .str m.name), ("fields", .arr (rawFieldsToJson m.fields)),
    ("source_kind", .str m.sourceKind), ("source_path", Json.ofText? m.sourcePath),
    ("description", Json.ofText? m.description)]

/-- The raw enum as a record. -/
def RawEnum.toJson (e : RawEnum) : Json :=
  .obj [("name", .str e.name), ("values", Json.ofTexts e.values),
    ("source_path", Json.ofText? e.sourcePath)]

/-- The raw schema as a record. -/
def RawSchema.toJson (s : RawSchema) : Json :=
  .obj [("models", .arr (s.models.map RawModel.toJson)),
    ("enums", .arr (s.enums.map RawEnum.toJson)), ("issues", .arr (s.issues.map Issue.toJson))]

/-! ## Reading -/

/-- The value of an entry; without the entry it is null. -/
def Json.at (key : String) (entries : List (String × Json)) : Json :=
  (Json.lookup key entries).getD .null

/-- A text, or nothing for null. The second part says whether the value is neither. -/
def Json.textOrNull : Json → Option String × Bool
  | .null => (none, false)
  | .str s => (some s, false)
  | v => (some (Json.asText v), true)

/-- The truth of a value, or nothing for null. -/
def Json.truth? : Json → Option Bool
  | .null => none
  | v => some v.isTruthy

/-- The texts of an array, and whether all of its items are texts. -/
def Json.textItems : Json → Option (List String) × Bool
  | .null => (none, false)
  | .arr vs => (some (vs.map Json.asText), vs.any fun v => v.str?.isNone)
  | .str s => (some (s.toList.map String.singleton), false)
  | .obj entries => (some (entries.map (·.1)), false)
  | _ => (some [], true)

namespace RawField

/-- A raw field from the entries of its record; `nested` holds the fields that it nests. -/
def ofEntries (entries : List (String × Json)) (nested : Option (List RawField)) : RawField :=
  let name := Json.at "name" entries
  let nameText := if name.isTruthy then name.textOrNull else (none, false)
  let scalar := (Json.at "scalar" entries).textOrNull
  let kind := scalar.1.bind ScalarKind.ofText?
  let required := match Json.at "required" entries with
    | .null => some none
    | v => ((Check.boolean v).toOption).map some
  let isArray := Json.truth? (Json.at "is_array" entries)
  let enumName := (Json.at "enum_name" entries).textOrNull
  let enumValues := (Json.at "enum_values" entries).textItems
  let target := (Json.at "reference_target" entries).textOrNull
  let defaultValue := (Json.at "default_value" entries).textOrNull
  let description := (Json.at "description" entries).textOrNull
  { name := nameText.1
    scalar := if scalar.1.isSome then some (kind.getD .unknown) else none
    required := required.getD none
    isArray
    enumName := enumName.1
    enumValues := enumValues.1
    target := target.1
    nested
    defaultValue := defaultValue.1
    isPrimary := Json.truth? (Json.at "is_primary" entries)
    isUnique := Json.truth? (Json.at "is_unique" entries)
    description := description.1
    typeToken := (Json.at "type_token" entries).textOrNull.1
    illTyped := nameText.2 || scalar.2 || (scalar.1.isSome && kind.isNone) || required.isNone ||
      (enumName.2 && enumValues.1.isSome) || enumValues.2 || target.2 || defaultValue.2 ||
      description.2 }

mutual

/-- A raw field from its record. -/
def ofJson : Json → RawField
  | .obj entries => ofEntries entries (nestedIn entries)
  | _ => {}

/-- The fields that a record nests. -/
def nestedIn : List (String × Json) → Option (List RawField)
  | [] => none
  | (key, v) :: rest => if key = "nested" then ofItems? v else nestedIn rest

/-- The raw fields of an array, or nothing. -/
def ofItems? : Json → Option (List RawField)
  | .arr vs => some (ofList vs)
  | _ => none

/-- Raw fields from their records. -/
def ofList : List Json → List RawField
  | [] => []
  | v :: vs => ofJson v :: ofList vs

end

end RawField

/-- A raw model from its record. -/
def RawModel.ofJson (v : Json) : RawModel :=
  { name := ((v.get? "name").bind Json.str?).getD ""
    fields := (((v.get? "fields").bind Json.arr?).getD []).map RawField.ofJson
    sourceKind := ((v.get? "source_kind").bind Json.str?).getD ""
    sourcePath := (v.get? "source_path").bind Json.str?
    description := (v.get? "description").bind Json.str? }

/-- A raw enum from its record. -/
def RawEnum.ofJson (v : Json) : RawEnum :=
  let values := ((v.get? "values").getD .null).textItems
  { name := ((v.get? "name").bind Json.str?).getD ""
    values := values.1.getD []
    sourcePath := (v.get? "source_path").bind Json.str?
    illTyped := values.2 }

end SchemaTypes
