import SchemaTypes.Prisma.Block
import SchemaTypes.Prisma.FieldLine
import SchemaTypes.Model.Basic
import SchemaTypes.Raw.Basic
import SchemaTypes.Text.Case

/-!
# Prisma schemas

A schema may be spread over several sources. The enums of all sources are read first, so that a
field may name an enum that is declared after it or elsewhere; of two enums of one name the first
one that can be read counts. A block with a line that cannot be read is left out as a whole, since a
model without one of its fields would be declared wrongly.

A type name stands for a scalar, else for a declared enum, else, if it starts with a capital, for a
model; any other type is unknown. A field that is a primary key is required.
-/

namespace SchemaTypes.Prisma

/-- One source of a schema. -/
structure Source where
  path : Option String
  text : List Char

/-- Why a block is left out. -/
inductive BlockFault where
  | unclosed (keyword : Keyword) (name : String) (line : Nat) (path : Option String)
  | enumLine (name line : String) (path : Option String)
  | emptyEnum (name : String) (path : Option String)
  | fieldLine (keyword : Keyword) (name : String) (line : Nat) (fault : LineFault)
    (path : Option String)
  deriving DecidableEq, Repr

namespace BlockFault

/-- What a message says about the block. -/
def message : BlockFault → String
  | unclosed keyword name line _ =>
    keyword.text ++ " '" ++ name ++ "' (line " ++ toString line ++
      ") has no matching closing brace"
  | enumLine name line _ =>
    "Unrecognized value in enum '" ++ name ++ "': " ++ Text.quoted line
  | emptyEnum name _ => "Enum '" ++ name ++ "' declares no values"
  | fieldLine keyword name line fault _ =>
    keyword.text ++ " '" ++ name ++ "' line " ++ toString line ++ ": " ++ fault.message

/-- The path of the source. -/
def path : BlockFault → Option String
  | unclosed _ _ _ path | enumLine _ _ path | emptyEnum _ path | fieldLine _ _ _ _ path => path

/-- The name of the block. -/
def name : BlockFault → String
  | unclosed _ name _ _ | enumLine name _ _ | emptyEnum name _ | fieldLine _ name _ _ _ => name

/-- The keyword of the block. -/
def keyword : BlockFault → Keyword
  | unclosed keyword _ _ _ | fieldLine keyword _ _ _ _ => keyword
  | enumLine _ _ _ | emptyEnum _ _ => .enum

/-- The issue about the block. -/
def issue (fault : BlockFault) : Issue :=
  .schemaParseError fault.message fault.path (some fault.name)

end BlockFault

/-! ## Enums -/

/-- The values of the lines of an enum, or the first line that has none. -/
def enumValues : List (List Char) → Except (List Char) (List String)
  | [] => .ok []
  | line :: lines =>
    match content? line with
    | none => enumValues lines
    | some text =>
      match word? text with
      | none => .error text
      | some (value, _) => (enumValues lines).map (String.ofList value :: ·)

/-- The enum of a block. -/
def enumOfBlock (b : Block) : Except BlockFault RawEnum :=
  match enumValues (Text.splitLines b.body) with
  | .error line => .error (.enumLine b.name (String.ofList line) b.sourcePath)
  | .ok [] => .error (.emptyEnum b.name b.sourcePath)
  | .ok values => .ok { name := b.name, values, sourcePath := b.sourcePath }

/-! ## Models -/

/-- The raw field of a line. `enums` are the enums that can be read, of all sources. -/
def resolve (enums : List RawEnum) (line : FieldLine) : RawField :=
  let raw : RawField :=
    { name := some line.name
      required := some (!line.isOptional || line.isPrimary)
      isArray := some line.isArray
      defaultValue := line.defaultValue
      isPrimary := some line.isPrimary
      isUnique := some line.isUnique
      description := line.description
      typeToken := some line.typeName }
  match ScalarKind.ofPrisma? line.typeName with
  | some kind => { raw with scalar := some kind }
  | none =>
    match enums.find? fun e => e.name == line.typeName with
    | some e => { raw with enumName := some line.typeName, enumValues := some e.values }
    | none =>
      if line.typeName.toList.head?.any Text.isCapital then
        { raw with target := some line.typeName }
      else { raw with scalar := some .unknown }

/-- The description that documentation lines make. -/
def descriptionOf (docs : List String) : Option String :=
  let text := Text.joinLines docs
  if text == "" then none else some text

/-- The raw fields of the lines of a model, or the number and fault of the first line that cannot be
read. `docs` are the documentation lines that wait for their field. -/
def fieldsOfLines (enums : List RawEnum) : (number : Nat) → (docs : List String) →
    List (List Char) → Except (Nat × LineFault) (List RawField)
  | _, _, [] => .ok []
  | number, docs, line :: lines =>
    match docLine? line with
    | some doc => fieldsOfLines enums (number + 1) (docs ++ [doc]) lines
    | none =>
      match FieldLine.ofLine line (descriptionOf docs) with
      | .error fault => .error (number, fault)
      | .ok none =>
        let docs := if (Text.trim line).isEmpty then docs else []
        fieldsOfLines enums (number + 1) docs lines
      | .ok (some field) =>
        (fieldsOfLines enums (number + 1) [] lines).map (resolve enums field :: ·)

/-- The model of a block. -/
def modelOfBlock (enums : List RawEnum) (b : Block) : Except BlockFault RawModel :=
  match fieldsOfLines enums b.line [] (Text.splitLines b.body) with
  | .error (line, fault) => .error (.fieldLine b.keyword b.name line fault b.sourcePath)
  | .ok fields =>
    .ok { name := b.name, fields, sourceKind := SourceKind.prisma.text
          sourcePath := b.sourcePath, description := b.description }

/-! ## Schemas -/

/-- The results of a step for each of some blocks: what it yields and why it fails, in order. -/
def partition {α ε : Type} : List (Except ε α) → List α × List ε
  | [] => ([], [])
  | .ok a :: rest => ((a :: (partition rest).1), (partition rest).2)
  | .error e :: rest => ((partition rest).1, (e :: (partition rest).2))

/-- What the sources of a schema yield, and the blocks that are left out. -/
structure Schema where
  models : List RawModel
  enums : List RawEnum
  faults : List BlockFault

/-- What is found in the sources, one source after the other. -/
def scanAll (sources : List Source) : List Found :=
  sources.flatMap fun s => scan s.path s.text

/-- The fault of a header without block. -/
def Found.fault? : Found → Option BlockFault
  | unclosed keyword name line path => some (.unclosed keyword name line path)
  | block _ => none

/-- The schema that is spread over the sources. -/
def Schema.ofSources (sources : List Source) : Schema :=
  let found := scanAll sources
  let blocks := found.filterMap Found.block?
  let (enums, enumFaults) :=
    partition ((blocks.filter fun b => b.keyword == .enum).map enumOfBlock)
  let (models, modelFaults) :=
    partition ((blocks.filter fun b => b.keyword.declaresFields).map (modelOfBlock enums))
  { models, enums, faults := found.filterMap Found.fault? ++ enumFaults ++ modelFaults }

/-- The schema as a raw schema, with an issue for each block that is left out. -/
def Schema.raw (s : Schema) : RawSchema :=
  { models := s.models, enums := s.enums, issues := s.faults.map BlockFault.issue }

end SchemaTypes.Prisma
