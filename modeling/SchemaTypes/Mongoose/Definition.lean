import SchemaTypes.Json.Writer
import SchemaTypes.Raw.Basic

/-!
# Field maps

A schema object maps the names of fields to definitions. A definition is the name of a constructor,
an array around the definition of its items, or an object. An object with an entry `type` or `enum`
is a descriptor, which wraps a type and adds facts about the field; any other object is an embedded
document with fields of its own. Names that start with an underscore are internal.

In a descriptor a reference wins over listed texts, and both over the type. An array inside an array
has items of which nothing is known.

Results: `describe_single`, an array of one definition holds what the definition describes.
-/

namespace SchemaTypes.Mongoose

/-- The entries of a field map or of an object in one. -/
abbrev Entries := List (String × Json)

/-- Whether an object is a descriptor. -/
def isDescriptorObject (entries : Entries) : Bool :=
  entries.any fun e => e.1 == "type" || e.1 == "enum"

/-- Whether a definition is a descriptor. -/
def isDescriptor : Json → Bool
  | .obj entries => isDescriptorObject entries
  | _ => false

/-- Whether a value says that a field is required: true, alone or before a message. -/
def saysRequired : Json → Bool
  | .bool b => b
  | .arr (.bool b :: _) => b
  | _ => false

/-- The texts among which a value has to be chosen. They may stand below `values`, and without any
there is no choice. -/
def choices? (v : Json) : Option (List String) :=
  let list := match v with
    | .obj entries => (Json.lookup "values" entries).getD .null
    | v => v
  match list with
  | .arr items =>
    let texts := (items.filter fun item => match item with
      | .null => false
      | _ => true).map Json.asText
    if texts.isEmpty then none else some texts
  | _ => none

/-- What a definition says about a single item. -/
inductive Item where
  | scalar (kind : ScalarKind) (token : Option String)
  | reference (target : String)
  | choice (values : List String)
  | document (fields : List RawField)

/-- What a definition says about the shape of a field. -/
structure Description where
  isArray : Bool
  item : Item

/-- An item of which nothing is known. -/
def Item.unknown : Item := .scalar .unknown none

/-- The item that a constructor makes. -/
def Item.ofConstructor (token : String) : Item :=
  .scalar ((ScalarKind.ofMongoose? token).getD .unknown) (some token)

/-- What a descriptor says beside its type. -/
def Item.ofDescriptor? (entries : Entries) : Option Item :=
  match Json.lookup "ref" entries with
  | some (.str "") => (choices? ((Json.lookup "enum" entries).getD .null)).map .choice
  | some (.str target) => some (.reference target)
  | _ => (choices? ((Json.lookup "enum" entries).getD .null)).map .choice

/-- Whether the type in a descriptor is an array. -/
def hasArrayType (entries : Entries) : Bool :=
  match Json.lookup "type" entries with
  | some (.arr _) => true
  | _ => false

/-- The raw field with a name and the statements of a definition. `required` are the paths of the
fields that are required for other reasons. -/
def fieldOf (required : List String) (path name : String) (definition : Json) (d : Description) :
    RawField :=
  let raw : RawField := { name := some name, required := some (required.contains path)
                          isArray := if d.isArray then some true else none }
  let shaped : RawField := match d.item with
    | .scalar kind token => { raw with scalar := some kind, typeToken := token }
    | .reference target => { raw with target := some target }
    | .choice values => { raw with enumValues := some values }
    | .document fields => { raw with nested := some fields }
  match definition with
  | .obj entries =>
    if isDescriptorObject entries then
      { shaped with
        required := some (required.contains path ||
          saysRequired ((Json.lookup "required" entries).getD .null))
        defaultValue := (Json.lookup "default" entries).map Json.sorted
        isUnique := some (match Json.lookup "unique" entries with
          | some (.bool b) => b
          | _ => false) }
    else shaped
  | _ => shaped

/-- The path of a field below another one. -/
def pathBelow (path name : String) : String :=
  if path == "" then name else path ++ "." ++ name

mutual

/-- What a definition says about the shape of the field at `path`, or, inside an array, about its
items. -/
def describe (required : List String) (inArray : Bool) (path : String) : Json → Description
  | .str token => ⟨false, .ofConstructor token⟩
  | .arr items => if inArray then ⟨false, .unknown⟩ else ⟨true, describeFirst required path items⟩
  | .obj entries =>
    if isDescriptorObject entries then
      match Item.ofDescriptor? entries with
      | some item => ⟨hasArrayType entries && !inArray, item⟩
      | none => describeType required inArray path entries
    else ⟨false, .document (fieldsOfMap required path entries)⟩
  | .null => ⟨false, .unknown⟩
  | .bool _ => ⟨false, .unknown⟩
  | .int _ => ⟨false, .unknown⟩
  | .float _ => ⟨false, .unknown⟩

/-- What the first definition of an array says about the items. -/
def describeFirst (required : List String) (path : String) : List Json → Item
  | [] => .unknown
  | definition :: _ => (describe required true path definition).item

/-- What the type of a descriptor says. -/
def describeType (required : List String) (inArray : Bool) (path : String) :
    Entries → Description
  | [] => ⟨false, .unknown⟩
  | (key, definition) :: rest =>
    if key = "type" then describe required inArray path definition
    else describeType required inArray path rest

/-- The raw fields of a field map below `path`, in order. -/
def fieldsOfMap (required : List String) (path : String) : Entries → List RawField
  | [] => []
  | (name, definition) :: rest =>
    if name.toList.head? == some '_' then fieldsOfMap required path rest
    else
      fieldOf required (pathBelow path name) name definition
        (describe required false (pathBelow path name) definition) ::
          fieldsOfMap required path rest

end

/-- The raw field that one entry of a field map declares. -/
def fieldOfEntry (required : List String) (path name : String) (definition : Json) : RawField :=
  fieldOf required path name definition (describe required false path definition)

theorem describe_single (required : List String) (path : String) (definition : Json) :
    describe required false path (.arr [definition]) =
      ⟨true, (describe required true path definition).item⟩ := by
  simp [describe, describeFirst]

end SchemaTypes.Mongoose
