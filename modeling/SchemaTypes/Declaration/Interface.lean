import SchemaTypes.Declaration.Literal
import SchemaTypes.Model.Basic
import SchemaTypes.Text.Blank
import SchemaTypes.Text.Lines

/-!
# Interfaces and enums

A model is declared as an interface with one property for each field, and a declared enum as an enum
of texts. A property that is not required may be missing or null. A field that names an enum of the
batch has the enum as its type; the values of any other enum are written out as a choice. The
elements of an array are put in parentheses if their type is a choice.

Results: `inlineObject_nil`, an object without fields has a short form.
-/

namespace SchemaTypes.Declaration

/-- The order of the enums in a document. -/
inductive EnumOrder where
  | insertion
  | sorted
  deriving DecidableEq, Repr, Inhabited

namespace EnumOrder

/-- The order as it is written. -/
def text : EnumOrder → String
  | insertion => "insertion"
  | sorted => "sorted"

/-- The orders by their texts. -/
def choices : List (String × EnumOrder) :=
  [("insertion", insertion), ("sorted", sorted)]

end EnumOrder

/-- What a reader of the declarations may choose. -/
structure Style where
  includeComments : Bool := true
  readonly : Bool := false
  enumOrder : EnumOrder := .insertion
  dateType : String := "string"
  banner : Option String := none
  deriving DecidableEq, Repr, Inhabited

/-- The names that a declaration may use, and the style. -/
structure Context where
  models : List String
  enums : List String
  style : Style
  deriving Inhabited

/-- The context of a batch. -/
def Context.of (models : List Model) (enums : List EnumDefinition) (style : Style) : Context :=
  { models := models.map (·.name), enums := enums.map (·.name), style }

/-! ## Types -/

/-- The blanks at the front of a line that is `depth` levels deep. -/
def indent (depth : Nat) : String :=
  String.ofList (List.replicate (2 * depth) ' ')

/-- The type of an enum: its name if the batch declares it, and its values otherwise. -/
def enumType (ctx : Context) (name : Option String) (values : List String) : String :=
  match name with
  | some name => if ctx.enums.contains name then name else union values
  | none => union values

/-- Whether the text stands somewhere in the other one. -/
def occursIn (part : List Char) : List Char → Bool
  | [] => part.isEmpty
  | c :: cs => part.isPrefixOf (c :: cs) || occursIn part cs

/-- The type of an array of elements of the given type. -/
def arrayType (element : String) : String :=
  if occursIn " | ".toList element.toList && element.toList.head? != some '\x7b' then
    "(" ++ element ++ ")[]"
  else element ++ "[]"

/-- The type of a field from the type of its shape. -/
def fieldType (required : Bool) (shape : String) : String :=
  if required then shape else shape ++ " | null"

/-- The lines of a property from its type. -/
def propertyLines (style : Style) (depth : Nat) (name : String) (required : Bool)
    (description : Option String) (type : String) : List String :=
  let pad := indent (depth + 1)
  let comment := match description with
    | some text =>
      if style.includeComments && text != "" then [pad ++ "/** " ++ text ++ " */"] else []
    | none => []
  comment ++ [pad ++ (if style.readonly then "readonly " else "") ++ propertyKey name ++
    (if required then "" else "?") ++ ": " ++ type ++ ";"]

/-- The type of an object from the lines of its properties. -/
def inlineObject (depth : Nat) (lines : List String) : String :=
  if lines.isEmpty then "\x7b\x7d"
  else Text.joinLines ("\x7b" :: lines ++ [indent depth ++ "\x7d"])

theorem inlineObject_nil (depth : Nat) : inlineObject depth [] = "\x7b\x7d" := rfl

mutual

/-- The type of an item that stands `depth` levels deep. -/
def itemType (ctx : Context) (depth : Nat) : ItemType → String
  | .scalar kind => kind.spelling ctx.style.dateType
  | .enum name values => enumType ctx name values
  | .reference target => target
  | .object fields => inlineObject depth (fieldLines ctx depth fields)

/-- The type of a shape that stands `depth` levels deep. A reference to nothing is unknown. -/
def shapeType (ctx : Context) (depth : Nat) : Shape → String
  | .single (.reference target) =>
    if target == "" then ScalarKind.unknown.spelling ctx.style.dateType else target
  | .single item => itemType ctx depth item
  | .array item _ => arrayType (itemType ctx depth item)

/-- The lines of fields whose object stands `depth` levels deep. -/
def fieldLines (ctx : Context) (depth : Nat) : List Field → List String
  | [] => []
  | ⟨name, required, shape, _, _, _, _, description⟩ :: fields =>
    propertyLines ctx.style depth name required description
      (fieldType required (shapeType ctx (depth + 1) shape)) ++ fieldLines ctx depth fields

end

/-- The type of a field that stands `depth` levels deep. -/
def Context.typeOf (ctx : Context) (depth : Nat) (f : Field) : String :=
  fieldType f.required (shapeType ctx depth f.shape)

/-! ## Declarations -/

/-- A description as a comment: on one line if it has one. -/
def docComment (text : String) : List String :=
  match Text.splitLines text.toList with
  | [] => ["/** " ++ text ++ " */"]
  | [line] => ["/** " ++ String.ofList line ++ " */"]
  | lines =>
    "/**" :: lines.map (fun line => String.ofList (Text.trimEnd (" * ".toList ++ line))) ++ [" */"]

/-- The comments above an interface. -/
def interfaceComments (m : Model) : List String :=
  (match m.description with
    | some text => if text == "" then [] else docComment text
    | none => []) ++ ["/** Auto-generated from " ++ m.sourceKind.text ++ " schema */"]

/-- The declaration of a model. -/
def interface (ctx : Context) (m : Model) : String :=
  Text.joinLines ((if ctx.style.includeComments then interfaceComments m else []) ++
    ["export interface " ++ m.name ++ " \x7b"] ++ fieldLines ctx 0 m.fields ++ ["\x7d"])

/-- The lines of the values of an enum, with a comma after each but the last. -/
def enumLines : List String → List String
  | [] => []
  | [value] => [indent 1 ++ propertyKey value ++ " = " ++ literal value]
  | value :: values =>
    (indent 1 ++ propertyKey value ++ " = " ++ literal value ++ ",") :: enumLines values

/-- The declaration of an enum. -/
def enumDeclaration (style : Style) (e : EnumDefinition) : String :=
  Text.joinLines ((if style.includeComments then ["/** Auto-generated enum */"] else []) ++
    ["export enum " ++ e.name ++ " \x7b"] ++ enumLines e.values ++ ["\x7d"])

end SchemaTypes.Declaration
