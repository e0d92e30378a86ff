import SchemaTypes.Proofs.Generation.Exports
import SchemaTypes.Proofs.Source.Modules
import SchemaTypes.Proofs.Source.Shapes
import SchemaTypes.Text.Identifier

/-!
# Declared names

The names of enums and models are written into documents as they are: behind the words that open a declaration,
and between the braces of imports and exports. Nothing else is written there, and every name is written
somewhere. So what is known about these names is known about the documents.

A name from a Prisma schema is a run of word characters. It is an identifier unless it starts with a numeral or
has a numeral that is no decimal digit. A name from a module is one that a contract gives, which may be any text,
or it is made from the name of the module, and then it is an identifier if the module has one for a name.

Results:
* `importsOf_within`: imports name enums and models of the batch.
* `contents_eq`: the documents of an output as blocks.
* `mem_printedNames`: the names in the documents are those of the enums and models.
* `printedNames_identifiers`: where the names come from, and when they are identifiers.
-/

namespace SchemaTypes

namespace Declaration

variable {ctx : Context} {models : List Model} {enums : List EnumDefinition} {style : Style}

/-! ## Imports -/

namespace Imports

/-- The imports name enums and models that the context declares. -/
structure Within (ctx : Context) (i : Imports) : Prop where
  enums : ∀ name ∈ i.enums, name ∈ ctx.enums
  models : ∀ name ∈ i.models, name ∈ ctx.models

theorem forall_mem_withName {p : String → Prop} {names : List String} {name : String}
    (hnames : ∀ x ∈ names, p x) (hname : p name) : ∀ x ∈ withName names name, p x := by
  unfold withName
  split
  · exact hnames
  · simpa [or_imp, forall_and] using ⟨hnames, hname⟩

theorem addEnum_within {i : Imports} (h : i.Within ctx) (name : Option String) :
    (i.addEnum ctx name).Within ctx := by
  unfold addEnum
  split
  · exact h
  · split
    · rename_i hdeclared
      exact ⟨forall_mem_withName h.enums (by simpa using hdeclared), h.models⟩
    · exact h

theorem addModel_within {i : Imports} (h : i.Within ctx) (owner name : String) :
    (i.addModel ctx owner name).Within ctx := by
  unfold addModel
  split
  · rename_i hdeclared
    simp only [Bool.and_eq_true, List.contains_iff_mem] at hdeclared
    exact ⟨h.enums, forall_mem_withName h.models hdeclared.2⟩
  · exact h

mutual

theorem addItem_within (owner : String) : ∀ (item : ItemType) {i : Imports}, i.Within ctx →
    (addItem ctx owner item i).Within ctx
  | .scalar _, _, h => by simpa [addItem] using h
  | .enum name _, _, h => by simpa [addItem] using addEnum_within h name
  | .reference target, _, h => by simpa [addItem] using addModel_within h owner target
  | .object fields, _, h => by simpa [addItem] using addFields_within owner fields h

theorem addShape_within (owner : String) : ∀ (shape : Shape) {i : Imports}, i.Within ctx →
    (addShape ctx owner shape i).Within ctx
  | .single item, _, h => by simpa [addShape] using addItem_within owner item h
  | .array item _, _, h => by simpa [addShape] using addItem_within owner item h

theorem addFields_within (owner : String) : ∀ (fields : List Field) {i : Imports}, i.Within ctx →
    (addFields ctx owner fields i).Within ctx
  | [], _, h => by simpa [addFields] using h
  | ⟨_, _, shape, _, _, _, _, _⟩ :: fields, _, h => by
    rw [addFields]
    exact addFields_within owner fields (addShape_within owner shape h)

end

end Imports

/-- What the document of a model imports is declared in another document of the batch. -/
theorem importsOf_within (ctx : Context) (m : Model) : (importsOf ctx m).Within ctx :=
  Imports.addFields_within m.name m.fields ⟨by simp, by simp⟩

/-! ## Blocks -/

/-- A block of a document: a statement, the imports, or the line of a document that exports nothing. -/
inductive Block where
  | statement (s : Statement)
  | imports (i : Imports)
  | noExports

namespace Block

/-- The block as it is written. -/
def text (ctx : Context) : Block → String
  | statement s => s.text ctx
  | imports i => Text.joinLines i.lines
  | noExports => "export \x7b\x7d;"

/-- The names that the block declares, imports or exports. -/
def names : Block → List String
  | statement s => s.exports
  | imports i => i.enums ++ i.models
  | noExports => []

end Block

/-- The text of a document of these blocks. -/
def textOfBlocks (ctx : Context) (blocks : List Block) : String :=
  documentText (blocks.map (Block.text ctx))

theorem textOfBlocks_statements (ctx : Context) (statements : List Statement) :
    textOfBlocks ctx (statements.map .statement) = textOf ctx statements := by
  rw [textOfBlocks, textOf, List.map_map]
  rfl

variable (models enums style)

/-- The blocks of the document of a model. -/
def modelBlocks (ctx : Context) (m : Model) : List Block :=
  [.imports (importsOf ctx m), .statement (.interface m)]

/-- The blocks of the document of the enums. -/
def enumsBlocks : List Block :=
  .statement (.comment (header style ["Enum definitions"])) ::
    match orderedEnums style enums with
    | [] => [.noExports]
    | ordered => ordered.map fun e => .statement (.enum e)

/-- The blocks of the documents of a batch. -/
def perModelBlocks : List (List Block) :=
  models.map (modelBlocks (Context.of models enums style)) ++
    [enumsBlocks enums style, (indexStatements models enums style).map .statement]

theorem enumsDocument_eq : enumsDocument enums style =
    textOfBlocks (Context.of models enums style) (enumsBlocks enums style) := by
  unfold enumsDocument enumsBlocks
  cases orderedEnums style enums with
  | nil => rfl
  | cons e ordered =>
    simp only [textOfBlocks, List.map_cons, List.map_map]
    rfl

/-- The documents of a batch are those of their blocks. -/
theorem contents_of_perModel {documents : List (String × String)}
    (h : perModel models enums style = .ok documents) :
    documents.map (·.2) =
      (perModelBlocks models enums style).map (textOfBlocks (Context.of models enums style)) := by
  rw [(perModel_ok_iff.mp h).2]
  simp only [perModelBlocks, List.map_append, List.map_map, List.map_cons, List.map_nil,
    textOfBlocks_statements, ← indexDocument_eq, ← enumsDocument_eq]
  rfl

variable {models enums style}

/-- The document of a model has no names but those of the batch. -/
theorem names_modelBlocks {m : Model} (hm : m ∈ models) :
    ∀ name ∈ (modelBlocks (Context.of models enums style) m).flatMap Block.names,
      name ∈ exportedNames models enums style := by
  have hwithin := importsOf_within (Context.of models enums style) m
  have henums (name : String) : name ∈ (orderedEnums style enums).map (·.name) ↔
      name ∈ (Context.of models enums style).enums := by
    simp [Context.of, mem_orderedEnums]
  intro name hname
  simp only [modelBlocks, List.flatMap_cons, List.flatMap_nil, Block.names, Statement.exports,
    List.append_nil, List.mem_append, List.mem_singleton] at hname
  rw [exportedNames, List.mem_append, henums]
  rcases hname with (hname | hname) | rfl
  · exact Or.inl (hwithin.enums name hname)
  · exact Or.inr (hwithin.models name hname)
  · exact Or.inr (List.mem_map_of_mem hm)

theorem names_enumsBlocks (enums : List EnumDefinition) (style : Style) :
    (enumsBlocks enums style).flatMap Block.names = (orderedEnums style enums).map (·.name) := by
  unfold enumsBlocks
  cases orderedEnums style enums with
  | nil => rfl
  | cons e ordered =>
    simp [Block.names, Statement.exports, List.flatMap_map, ← List.map_eq_flatMap]

theorem names_statements (statements : List Statement) :
    (statements.map Block.statement).flatMap Block.names = statements.flatMap Statement.exports := by
  rw [List.flatMap_map]
  rfl

/-- The names in the documents of a batch are those that the index exports. -/
theorem mem_names_perModelBlocks {name : String} :
    name ∈ (perModelBlocks models enums style).flatten.flatMap Block.names ↔
      name ∈ exportedNames models enums style := by
  have hindex : ((indexStatements models enums style).map Block.statement).flatMap Block.names =
      exportedNames models enums style := by
    rw [names_statements, exports_indexStatements]
  have henums : name ∈ (orderedEnums style enums).map (·.name) →
      name ∈ exportedNames models enums style := List.mem_append_left _
  rw [perModelBlocks, List.flatten_append, List.flatMap_append, List.mem_append]
  simp only [List.flatten_cons, List.flatten_nil, List.append_nil, List.flatMap_append, List.mem_append,
    names_enumsBlocks, hindex]
  -- The index has every name of the batch, so the other documents only have to add none.
  constructor
  · rintro (hname | hname | hname)
    · simp only [List.mem_flatMap, List.mem_flatten, List.mem_map] at hname
      obtain ⟨block, ⟨blocks, ⟨m, hm, rfl⟩, hblock⟩, hname⟩ := hname
      exact names_modelBlocks hm name (List.mem_flatMap.mpr ⟨block, hblock, hname⟩)
    · exact henums hname
    · exact hname
  · exact fun hname => Or.inr (Or.inr hname)

end Declaration

open Declaration

/-! ## Outputs -/

/-- The blocks of the documents of an output. -/
def Output.blocks (settings : Settings) (output : Output) : List (List Block) :=
  match settings.outputMode with
  | .combined => [(combinedStatements output.models output.enums settings.style).map .statement]
  | .perModel => perModelBlocks output.models output.enums settings.style

/-- The names that the documents of an output declare, import and export. -/
def Output.printedNames (settings : Settings) (output : Output) : List String :=
  (output.blocks settings).flatten.flatMap Block.names

section Output

variable {ws : Workspace} {settings : Settings} {raw : RawSchema} {output : Output}

theorem Output.contents_eq (h : Output.ofRaw settings raw = .ok output) :
    output.documents.map (·.content) =
      (output.blocks settings).map (textOfBlocks (Context.of output.models output.enums settings.style)) := by
  cases hmode : settings.outputMode with
  | combined =>
    simp [combined_of_ofRaw h hmode, blocks, hmode, textOfBlocks_statements, combined_eq]
  | perModel =>
    obtain ⟨documents, hper, hdocuments⟩ := perModel_of_ofRaw h hmode
    simp only [hdocuments, blocks, hmode, ← contents_of_perModel _ _ _ hper, List.map_map]
    rfl

/-- The names in the documents are those of the enums and models. -/
theorem Output.mem_printedNames {name : String} : name ∈ output.printedNames settings ↔
    (∃ e ∈ output.enums, e.name = name) ∨ ∃ m ∈ output.models, m.name = name := by
  have hexported : name ∈ output.printedNames settings ↔
      name ∈ exportedNames output.models output.enums settings.style := by
    unfold printedNames blocks
    cases settings.outputMode
    · simp only [List.flatten_cons, List.flatten_nil, List.append_nil, names_statements,
        exports_combinedStatements]
    · exact mem_names_perModelBlocks
  rw [hexported, exportedNames, List.mem_append]
  simp [mem_orderedEnums]

end Output

/-! ## Sources -/

/-- The name of a module up to its first point. -/
def stemOf (path : Path) : String :=
  String.ofList (path.name.toList.takeWhile (· != '.'))

/-- The name from the name of a module is an identifier if that is one. -/
theorem isIdentifierName_modelNameOf {path : Path} (h : ∀ c ∈ (stemOf path).toList.head?, c.toNat < 0x80) :
    Text.isIdentifierName (Mongoose.modelNameOf path) = Text.isIdentifierName (stemOf path) :=
  Text.isIdentifierName_capitalize h

/-- A model of a contract has the name that stands there, or one from the name of the module. -/
theorem Mongoose.name_raw (m : ContractModel) (path : Path) :
    (m.raw path).name = modelNameOf path ∨ m.name = some (m.raw path).name := by
  unfold ContractModel.raw
  dsimp only
  split
  · exact Or.inl rfl
  · exact Or.inl rfl
  · exact Or.inr ‹_›

section Sources

variable {ws : Workspace} {settings : Settings} {raw : RawSchema}

/-- Schema files give names to models and enums that are runs of word characters. -/
theorem Input.isName_of_prisma (hkind : settings.sourceKind = .prisma)
    (h : Input.source.raw ws settings = .ok raw) :
    (∀ r ∈ raw.models, Text.isName r.name = true) ∧ ∀ r ∈ raw.enums, Text.isName r.name = true := by
  obtain ⟨reading, hread, rfl⟩ := map_eq_ok_iff.mp h
  simp only [SchemaSource.ofSettings, hkind, SchemaSource.read] at hread
  split at hread
  · simp at hread
  · obtain ⟨schema, hschema, rfl⟩ := map_eq_ok_iff.mp hread
    cases hfound : Prisma.readSchema ws.tree settings.schemaPath with
    | error i => simp [hfound, Except.mapError] at hschema
    | ok found =>
      obtain rfl : found = schema := by simpa [hfound, Except.mapError] using hschema
      simp only [Prisma.readSchema, bind, bind_eq_ok_iff] at hfound
      obtain ⟨files, -, sources, -, hof⟩ := hfound
      obtain rfl := Except.ok.inj hof
      exact Prisma.Schema.isName sources
  · contradiction

/-- A model from modules has the name that the contract of a module gives it, or a name made from that of a
module. -/
theorem Input.names_of_mongoose (hkind : settings.sourceKind = .mongoose)
    (h : Input.source.raw ws settings = .ok raw) :
    ∃ files, Mongoose.moduleFiles ws.tree (.ofSettings settings) settings.schemaPath = .ok files ∧
      ∀ r ∈ raw.models, ∃ path ∈ files, r.name = Mongoose.modelNameOf path ∨
        ∃ c, (ws.moduleOutcome path (ModuleSearch.ofSettings settings).loader).Loads c ∧
          ∃ m ∈ c.models, m.name = some r.name := by
  obtain ⟨reading, hread, rfl⟩ := map_eq_ok_iff.mp h
  have hsource : SchemaSource.ofSettings settings = .mongoose (.ofSettings settings) := by
    simp [SchemaSource.ofSettings, hkind]
  rw [hsource] at hread
  cases hlook : ws.tree.lookFault? settings.schemaPath with
  | some fault => simp [SchemaSource.read, hlook] at hread
  | none =>
    cases hfiles : Mongoose.moduleFiles ws.tree (.ofSettings settings) settings.schemaPath with
    | error problem => simp [SchemaSource.read, hlook, hfiles, bind, Except.bind] at hread
    | ok files =>
      have hraw := SchemaSource.read_modules hlook hfiles
      rw [hread] at hraw
      rw [← (Mongoose.ofOutcomes_eq_ok_iff.mp hraw.symm).2]
      refine ⟨files, rfl, fun r hr => ?_⟩
      simp only [Mongoose.joined, List.mem_flatMap, List.mem_map] at hr
      obtain ⟨_, ⟨_, ⟨path, hpath, rfl⟩, rfl⟩, hr⟩ := hr
      refine ⟨path, hpath, ?_⟩
      unfold Mongoose.partOf at hr
      split at hr
      · rename_i c hcontract
        obtain ⟨m, hm, rfl⟩ := List.mem_map.mp hr
        have hloads := Mongoose.ModuleOutcome.contract_eq_ok_iff.mp hcontract
        exact (Mongoose.name_raw m path).imp_right fun hname => ⟨c, hloads, m, hm, hname⟩
      · simp at hr
      · simp at hr

end Sources

/-- The names in the documents for a source. They are all identifiers exactly if those of all enums and models
are. A name from a schema file is a run of word characters, which decides whether it is an identifier. A name
from modules is made from that of a module, which decides it too, or it stands in the contract of one. -/
theorem printedNames_identifiers {ws : Workspace} {settings : Settings} {output : Output}
    (h : Output.build ws settings .source = .ok output) :
    output.documents.map (·.content) =
      (output.blocks settings).map (textOfBlocks (Context.of output.models output.enums settings.style)) ∧
    ((∀ name ∈ output.printedNames settings, Text.isIdentifierName name = true) ↔
      (∀ e ∈ output.enums, Text.isIdentifierName e.name = true) ∧
        ∀ m ∈ output.models, Text.isIdentifierName m.name = true) ∧
    (settings.sourceKind = .prisma → ∀ name ∈ output.printedNames settings, Text.isName name = true ∧
      (Text.isIdentifierName name = true ↔ (∀ c ∈ name.toList.head?, Text.isNumeral c = false) ∧
        ∀ c ∈ name.toList, Text.isNumeral c = true → Text.isDecimal c = true)) ∧
    (settings.sourceKind = .mongoose →
      ∃ files, Mongoose.moduleFiles ws.tree (.ofSettings settings) settings.schemaPath = .ok files ∧
        ∀ name ∈ output.printedNames settings, ∃ path ∈ files,
          (name = Mongoose.modelNameOf path ∧ ((∀ c ∈ (stemOf path).toList.head?, c.toNat < 0x80) →
            Text.isIdentifierName name = Text.isIdentifierName (stemOf path))) ∨
          ∃ c, (ws.moduleOutcome path (ModuleSearch.ofSettings settings).loader).Loads c ∧
            ∃ m ∈ c.models, m.name = some name) := by
  obtain ⟨raw, hraw, hof⟩ := bind_eq_ok_iff.mp h
  obtain ⟨hmodels, henums⟩ := Output.exists_raw_names hof
  refine ⟨Output.contents_eq hof, ?_, fun hkind name hname => ?_, fun hkind => ?_⟩
  · simp only [Output.mem_printedNames, or_imp, forall_and, forall_exists_index, and_imp,
      forall_apply_eq_imp_iff₂]
  · obtain ⟨hrawModels, hrawEnums⟩ := Input.isName_of_prisma hkind hraw
    have hword : Text.isName name = true := by
      rcases Output.mem_printedNames.mp hname with ⟨e, he, rfl⟩ | ⟨m, hm, rfl⟩
      · obtain ⟨r, hr, heq⟩ := henums e he
        exact heq ▸ hrawEnums r hr
      · obtain ⟨r, hr, heq⟩ := hmodels m hm
        exact heq ▸ hrawModels r hr
    exact ⟨hword, Text.isIdentifierName_iff_of_isName hword⟩
  · have hnone := Input.enums_of_mongoose hkind hraw
    obtain ⟨files, hfiles, hnames⟩ := Input.names_of_mongoose hkind hraw
    refine ⟨files, hfiles, fun name hname => ?_⟩
    rcases Output.mem_printedNames.mp hname with ⟨e, he, rfl⟩ | ⟨m, hm, rfl⟩
    · obtain ⟨r, hr, -⟩ := henums e he
      simp [hnone] at hr
    · obtain ⟨r, hr, heq⟩ := hmodels m hm
      obtain ⟨path, hpath, hname | hname⟩ := hnames r hr
      · refine ⟨path, hpath, Or.inl ⟨heq ▸ hname, fun hascii => ?_⟩⟩
        rw [← heq, hname, isIdentifierName_modelNameOf hascii]
      · exact ⟨path, hpath, Or.inr (heq ▸ hname)⟩

/-- The names in the documents for a schema with an enum and a model, which are both identifiers. -/
theorem printedNames_identifiers_user : ∃ output, roleOutput "User" .perModel = .ok output ∧
    output.printedNames (roleSettings .perModel) = ["User", "Role", "Role", "User"] ∧
    ∀ name ∈ output.printedNames (roleSettings .perModel), Text.isIdentifierName name = true := by
  have hrun : (roleOutput "User" .perModel).toOption.map (fun output =>
      (output.printedNames (roleSettings .perModel),
        decide ((∀ e ∈ output.enums, Text.isIdentifierName e.name = true) ∧
          ∀ m ∈ output.models, Text.isIdentifierName m.name = true))) =
      some (["User", "Role", "Role", "User"], true) := by decide +kernel
  obtain ⟨output, hbuilt, houtput⟩ := Option.map_eq_some_iff.mp hrun
  obtain ⟨hnames, hidentifiers⟩ := Prod.mk.inj houtput
  have hbuild := eq_ok_of_toOption hbuilt
  exact ⟨output, hbuild, hnames, (printedNames_identifiers hbuild).2.1.mpr (of_decide_eq_true hidentifiers)⟩

/-- The output for a contract of one model without a name, in a module of two words. -/
def profileOutput : Except Problem Output :=
  let contract := "\x7b\"models\": [\x7b\"fields\": \x7b\"email\": \"String\"\x7d\x7d]\x7d"
  Output.build
    { tree := (FileTree.empty ["work"]).put ["work", "user-profile.schema.json"] (.file contract.toUTF8) }
    { typesSettings with schemaPath := ⟨"", ["user-profile.schema.json"]⟩ } .source

/-- The names of modules and of schema files are written without regard to what an identifier is. -/
theorem printedNames_not_identifiers :
    profileOutput.toOption.map (Output.printedNames typesSettings) = some ["User-profile"] ∧
      (roleOutput "1User" .combined).toOption.map (Output.printedNames (roleSettings .combined)) =
        some ["Role", "1User"] ∧
      Text.isIdentifierName "User-profile" = false ∧ Text.isIdentifierName "1User" = false := by
  decide +kernel

end SchemaTypes
