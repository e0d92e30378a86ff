import SchemaTypes.Declaration.Interface
import SchemaTypes.Issue

/-!
# Documents

The declarations of a batch fill one document, or one document for each model, one for the enums and
an index. A document of a model imports the enums and models that it names. The names of the last
two documents are reserved, whatever the case of their letters.

Results: `perModel_ok_iff`, what the documents of a batch are.
-/

namespace SchemaTypes.Declaration

/-- The name of the document for the enums. -/
def enumsModule : String := "enums"

/-- The name of the document that exports everything, and of the only one if there is one. -/
def indexModule : String := "index"

/-- The name of a document in the file system. -/
def fileName (module : String) : String :=
  module ++ ".ts"

/-! ## Imports -/

/-- What the document of a model has to import, in the order of first use. -/
structure Imports where
  enums : List String := []
  models : List String := []
  deriving DecidableEq, Repr

/-- The names with one more at the end, unless it is there. -/
def withName (names : List String) (name : String) : List String :=
  if names.contains name then names else names ++ [name]

namespace Imports

/-- The imports with an enum, if it has a name and the batch declares it. -/
def addEnum (ctx : Context) (i : Imports) : Option String → Imports
  | none => i
  | some name => if ctx.enums.contains name then { i with enums := withName i.enums name } else i

/-- The imports with a model, if it is one of the batch and not the owner of the document. -/
def addModel (ctx : Context) (owner : String) (i : Imports) (name : String) : Imports :=
  if name != owner && ctx.models.contains name then { i with models := withName i.models name }
  else i

mutual

/-- The imports with those that an item needs in the document of its owner. -/
def addItem (ctx : Context) (owner : String) : ItemType → Imports → Imports
  | .scalar _, i => i
  | .enum name _, i => i.addEnum ctx name
  | .reference target, i => i.addModel ctx owner target
  | .object fields, i => addFields ctx owner fields i

/-- The imports with those that a shape needs in the document of its owner. -/
def addShape (ctx : Context) (owner : String) : Shape → Imports → Imports
  | .single item, i => addItem ctx owner item i
  | .array item _, i => addItem ctx owner item i

/-- The imports with those that fields need in the document of their owner. -/
def addFields (ctx : Context) (owner : String) : List Field → Imports → Imports
  | [], i => i
  | ⟨_, _, shape, _, _, _, _, _⟩ :: fields, i =>
    addFields ctx owner fields (addShape ctx owner shape i)

end

end Imports

/-- The imports of a model. -/
def importsOf (ctx : Context) (m : Model) : Imports :=
  Imports.addFields ctx m.name m.fields {}

/-- The statement that imports or exports names of another document. -/
def clause (words : String) (names : List String) (module : String) : String :=
  words ++ " \x7b " ++ ", ".intercalate names ++ " \x7d from './" ++ module ++ "';"

/-- The lines of the imports. Enums are values, models are types only. -/
def Imports.lines (i : Imports) : List String :=
  (if i.enums.isEmpty then [] else [clause "import" i.enums enumsModule]) ++
    i.models.map fun name => clause "import type" [name] name

/-! ## Texts -/

/-- The header of a document. -/
def header (style : Style) (subtitle : List String) : String :=
  let comment := Text.joinLines (["/**", " * AUTO-GENERATED by typebridge"] ++
    subtitle.map (" * " ++ ·) ++ [" */"])
  match style.banner with
  | none | some "" => comment
  | some banner => comment ++ "\n\n/* " ++ banner ++ " */"

/-- Enums in the order of the style. -/
def orderedEnums (style : Style) (enums : List EnumDefinition) : List EnumDefinition :=
  match style.enumOrder with
  | .insertion => enums
  | .sorted => enums.mergeSort fun a b => !(decide (b.name < a.name))

/-- The text of a document: its blocks with an empty line between each two of them. -/
def documentText (blocks : List String) : String :=
  "\n\n".intercalate (blocks.filter (· != "")) ++ "\n"

/-- All declarations in one text. -/
def combined (models : List Model) (enums : List EnumDefinition) (style : Style) : String :=
  let ctx := Context.of models enums style
  documentText (header style ["Do not edit manually"] ::
    (orderedEnums style enums).map (enumDeclaration style) ++ models.map (interface ctx))

/-- The document of a model. -/
def modelDocument (ctx : Context) (m : Model) : String :=
  documentText [Text.joinLines (importsOf ctx m).lines, interface ctx m]

/-- The document of the enums. -/
def enumsDocument (enums : List EnumDefinition) (style : Style) : String :=
  let blocks := match orderedEnums style enums with
    | [] => ["export \x7b\x7d;"]
    | ordered => ordered.map (enumDeclaration style)
  documentText (header style ["Enum definitions"] :: blocks)

/-- The document that exports everything. -/
def indexDocument (models : List Model) (enums : List EnumDefinition) (style : Style) : String :=
  let enumBlock := match orderedEnums style enums with
    | [] => []
    | ordered => [clause "export" (ordered.map (·.name)) enumsModule]
  let modelBlock :=
    if models.isEmpty then []
    else [Text.joinLines (models.map fun m => clause "export type" [m.name] m.name)]
  documentText (header style ["Type exports"] :: enumBlock ++ modelBlock)

/-! ## Documents of a batch -/

/-- Whether a model of this name would need the place of one of the documents of the batch. -/
def isReserved (name : String) : Bool :=
  [enumsModule, indexModule].contains name.toLower

/-- The documents of a batch by the names of their files, or the first model whose document has no
place. -/
def perModel (models : List Model) (enums : List EnumDefinition) (style : Style) :
    Except Issue (List (String × String)) :=
  match models.find? fun m => isReserved m.name with
  | some m => .error (.outputNameConflict m.name (fileName m.name.toLower) m.sourcePath)
  | none =>
    let ctx := Context.of models enums style
    .ok (models.map (fun m => (fileName m.name, modelDocument ctx m)) ++
      [(fileName enumsModule, enumsDocument enums style),
        (fileName indexModule, indexDocument models enums style)])

section PerModel

variable {models : List Model} {enums : List EnumDefinition} {style : Style}
  {documents : List (String × String)}

/-- What the documents of a batch are, and when there are some. -/
theorem perModel_ok_iff : perModel models enums style = .ok documents ↔
    (∀ m ∈ models, isReserved m.name = false) ∧
      documents = models.map (fun m => (fileName m.name,
          modelDocument (Context.of models enums style) m)) ++
        [(fileName enumsModule, enumsDocument enums style),
          (fileName indexModule, indexDocument models enums style)] := by
  unfold perModel
  split
  · rename_i m hfound
    have hreserved := List.find?_some hfound
    simp only [reduceCtorEq, false_iff, not_and]
    intro hfree
    simp [hfree m (List.mem_of_find?_eq_some hfound)] at hreserved
  · rename_i hnone
    have hfree : ∀ m ∈ models, isReserved m.name = false := by
      simpa using List.find?_eq_none.mp hnone
    simp only [Except.ok.injEq]
    exact ⟨fun h => ⟨hfree, h.symm⟩, fun h => h.2.symm⟩

end PerModel

end SchemaTypes.Declaration
