import SchemaTypes.Declaration.Interface
import SchemaTypes.FileTree.Basic
import SchemaTypes.Json.Complaint
import SchemaTypes.Model.Record

/-!
# Settings

The settings of a run name its source and its output and say what the documents look like. They are
given as named values, or stand in a file to which some values are added. Paths in a file start from
the directory of the file.
-/

namespace SchemaTypes

/-- How the declarations are spread over documents. -/
inductive OutputMode where
  | combined
  | perModel
  deriving DecidableEq, Repr, Inhabited

namespace OutputMode

/-- The mode as it is written. -/
def text : OutputMode → String
  | combined => "combined"
  | perModel => "per-model"

/-- The modes by their texts. -/
def choices : List (String × OutputMode) :=
  [("combined", combined), ("per-model", perModel)]

end OutputMode

/-- How the modules of a source yield their contracts. -/
inductive LoaderKind where
  | contract
  | node
  deriving DecidableEq, Repr, Inhabited

namespace LoaderKind

/-- The kind of loader as it is written. -/
def text : LoaderKind → String
  | contract => "contract"
  | node => "node"

/-- The kinds of loader by their texts. -/
def choices : List (String × LoaderKind) :=
  [("contract", contract), ("node", node)]

end LoaderKind

/-- Everything that one run needs to know. Without name patterns those of the loader apply. -/
structure Settings where
  sourceKind : SourceKind
  schemaPath : Path
  outputPath : Path
  outputMode : OutputMode
  includeComments : Bool
  readonly : Bool
  enumOrder : Declaration.EnumOrder
  dateType : String
  banner : Option String
  includes : Option (List String)
  excludes : Option (List String)
  loader : LoaderKind
  nodeExecutable : String
  deriving Inhabited

/-- The part of the settings on which the text of the documents depends. -/
def Settings.style (s : Settings) : Declaration.Style :=
  { includeComments := s.includeComments, readonly := s.readonly, enumOrder := s.enumOrder
    dateType := s.dateType, banner := s.banner }

/-! ## Records -/

/-- The style as a record. -/
def Declaration.Style.toJson (s : Declaration.Style) : Json :=
  .obj [("include_comments", .bool s.includeComments), ("readonly", .bool s.readonly),
    ("enum_order", .str s.enumOrder.text), ("date_type", .str s.dateType),
    ("banner", Json.ofText? s.banner)]

/-- A list of texts that may be missing, as a value. -/
def Json.ofTexts? : Option (List String) → Json
  | some xs => .ofTexts xs
  | none => .null

/-- The settings as a record. -/
def Settings.toJson (s : Settings) : Json :=
  .obj [("orm", .str s.sourceKind.text), ("schema_path", .str s.schemaPath.toString),
    ("output_path", .str s.outputPath.toString), ("output_mode", .str s.outputMode.text),
    ("include_comments", .bool s.includeComments), ("readonly", .bool s.readonly),
    ("enum_order", .str s.enumOrder.text), ("date_type", .str s.dateType),
    ("banner", Json.ofText? s.banner), ("include", Json.ofTexts? s.includes),
    ("exclude", Json.ofTexts? s.excludes), ("mongoose_loader", .str s.loader.text),
    ("node_executable", .str s.nodeExecutable)]

namespace Check

/-- The keys of the settings. -/
def settingKeys : List String :=
  ["orm", "schema_path", "output_path", "output_mode", "include_comments", "readonly",
    "enum_order", "date_type", "banner", "include", "exclude", "mongoose_loader",
    "node_executable"]

/-- A style. -/
def style : Json → Checked Declaration.Style
  | .obj entries =>
    let checked : Checked Declaration.Style :=
      Declaration.Style.mk <$> optional "include_comments" true boolean entries
        <*> optional "readonly" false boolean entries
        <*> optional "enum_order" .insertion (literal Declaration.EnumOrder.choices) entries
        <*> optional "date_type" "string" text entries
        <*> optional "banner" none text? entries
    also checked (noOthers ["include_comments", "readonly", "enum_order", "date_type", "banner"]
      entries)
  | _ => .fault (.notRecord "RenderOptions")

/-- A path. -/
def path : Json → Checked Path
  | .str s => .ok (Path.ofString s)
  | _ => .fault .notPath

/-- Settings from their named values. -/
def settings (entries : List (String × Json)) : Checked Settings :=
  let checked : Checked Settings :=
    Settings.mk <$> required "orm" (literal SourceKind.choices) entries
      <*> required "schema_path" path entries
      <*> required "output_path" path entries
      <*> optional "output_mode" .combined (literal OutputMode.choices) entries
      <*> optional "include_comments" true boolean entries
      <*> optional "readonly" false boolean entries
      <*> optional "enum_order" .insertion (literal Declaration.EnumOrder.choices) entries
      <*> optional "date_type" "string" name entries
      <*> optional "banner" none text? entries
      <*> optional "include" none (nullable (items .notList text)) entries
      <*> optional "exclude" none (nullable (items .notList text)) entries
      <*> optional "mongoose_loader" .contract (literal LoaderKind.choices) entries
      <*> optional "node_executable" "node" text entries
  also checked (noOthers settingKeys entries)

end Check

namespace Settings

/-- Settings from their named values, or the issue about them. -/
def ofEntries (entries : List (String × Json)) : Except Issue Settings :=
  match Check.settings entries with
  | .ok s => .ok s
  | .faulty faults => .error (.invalidOptions ("Invalid options: " ++ Fault.describe "options" faults))

/-! ## Files -/

/-- Why the settings in a file cannot be used. -/
inductive FileFault where
  | unreadable (reason : String)
  | notJson (reason : String)
  | notObject
  | invalid (faults : List Fault)

/-- What a message says about the settings in the file at a path. -/
def FileFault.message (path : Path) : FileFault → String
  | unreadable reason => "Cannot read options file " ++ path.toString ++ ": " ++ reason
  | notJson reason => "Options file " ++ path.toString ++ " is not valid JSON: " ++ reason
  | notObject => "Options file " ++ path.toString ++ " must contain a JSON object"
  | invalid faults =>
    "Invalid options in " ++ path.toString ++ ": " ++ Fault.describe "options" faults

/-- The entries of the file at a path. -/
def entriesInFile (tree : FileTree) (path : Path) : Except FileFault (List (String × Json)) :=
  match tree.readText path with
  | .error (.system e at_) =>
    .error (if path.holdsNul then .notJson FileTree.PathFault.nul.message
      else .unreadable (e.message at_))
  | .error .notUtf8 => .error (.notJson FileTree.ReadError.notUtf8.message)
  | .ok text =>
    match Json.read? Json.settingsRules text with
    | none => .error (.notJson (Json.complaintAbout text))
    | some (.obj entries) => .ok entries
    | some _ => .error .notObject

/-- The entries with the path at a key, if it is relative, starting from a directory. -/
def rebase (directory : Path) (key : String) (entries : List (String × Json)) :
    List (String × Json) :=
  match Json.lookup key entries with
  | some (.str s) =>
    if (Path.ofString s).isAbsolute then entries
    else Json.insert key (.str (directory.joinText s).toString) entries
  | _ => entries

/-- The entries with further values; null does not count as one. -/
def override (entries : List (String × Json)) : List (String × Json) → List (String × Json)
  | [] => entries
  | (_, .null) :: more => override entries more
  | (key, v) :: more => override (Json.insert key v entries) more

/-- The settings in the file at a path, with further values that win over those of the file. -/
def ofFile (tree : FileTree) (path : Path) (more : List (String × Json)) :
    Except Issue Settings :=
  let result : Except FileFault Settings := do
    let entries ← entriesInFile tree path
    let rebased := rebase path.parent "output_path" (rebase path.parent "schema_path" entries)
    match Check.settings (override rebased more) with
    | .ok s => return s
    | .faulty faults => throw (.invalid faults)
  result.mapError fun fault => .invalidOptions (fault.message path) (some path.toString)

end Settings

end SchemaTypes
