import SchemaTypes.Proofs.Declaration.EnumOrder
import SchemaTypes.Proofs.Generation.Places
import SchemaTypes.Proofs.Generation.Verification
import SchemaTypes.Proofs.Model.EnumTable

/-!
# Exported names

One document of an output exports all that the output declares: the only document if there is one, and the
index otherwise. It is made of statements, of which the declarations and the exports from other documents
export names: those of the enums, in the order of the style, and those of the models.

The models of an output have different names, since a second model of a name is an error, and so have its
enums, since only the first enum of a name is kept. Nothing compares the names of the enums with those of the
models. An enum and a model of a Prisma schema that share a name are both declared, and the name is exported
twice, which no reader of the declarations accepts.

Results:
* `combined_eq`, `indexDocument_eq`: the two documents as statements.
* `exports_nodup_iff`: when no name is exported twice.
* `exports_shared`: an enum and a model of one name.
-/

namespace SchemaTypes

namespace Declaration

/-! ## Statements -/

/-- A block of a document. -/
inductive Statement where
  | comment (text : String)
  | enum (e : EnumDefinition)
  | interface (m : Model)
  | enumNames (names : List String)
  | modelNames (names : List String)

namespace Statement

/-- The statement as it is written. -/
def text (ctx : Context) : Statement → String
  | comment text => text
  | enum e => enumDeclaration ctx.style e
  | interface m => Declaration.interface ctx m
  | enumNames names => clause "export" names enumsModule
  | modelNames names => Text.joinLines (names.map fun name => clause "export type" [name] name)

/-- The names that the statement exports. -/
def exports : Statement → List String
  | comment _ => []
  | enum e => [e.name]
  | interface m => [m.name]
  | enumNames names => names
  | modelNames names => names

end Statement

variable (models : List Model) (enums : List EnumDefinition) (style : Style)

/-- The statements of the only document. -/
def combinedStatements : List Statement :=
  .comment (header style ["Do not edit manually"]) ::
    (orderedEnums style enums).map .enum ++ models.map .interface

/-- The statements of the index. -/
def indexStatements : List Statement :=
  let enumStatements := match orderedEnums style enums with
    | [] => []
    | ordered => [.enumNames (ordered.map (·.name))]
  let modelStatements := if models.isEmpty then [] else [.modelNames (models.map (·.name))]
  .comment (header style ["Type exports"]) :: enumStatements ++ modelStatements

/-- The text of a document of these statements. -/
def textOf (ctx : Context) (statements : List Statement) : String :=
  documentText (statements.map (Statement.text ctx))

theorem combined_eq : combined models enums style =
    textOf (Context.of models enums style) (combinedStatements models enums style) := by
  simp only [combined, textOf, combinedStatements, List.map_cons, List.map_append, List.map_map]
  rfl

theorem indexDocument_eq : indexDocument models enums style =
    textOf (Context.of models enums style) (indexStatements models enums style) := by
  unfold indexDocument indexStatements
  cases orderedEnums style enums <;> cases models.isEmpty <;>
    simp [textOf, Statement.text, Function.comp_def]

/-- The names that both documents export: those of the enums in their order, then those of the models. -/
def exportedNames : List String :=
  (orderedEnums style enums).map (·.name) ++ models.map (·.name)

theorem exports_combinedStatements :
    (combinedStatements models enums style).flatMap Statement.exports =
      exportedNames models enums style := by
  simp [combinedStatements, exportedNames, List.flatMap_map, Statement.exports, ← List.map_eq_flatMap]

theorem exports_indexStatements :
    (indexStatements models enums style).flatMap Statement.exports =
      exportedNames models enums style := by
  unfold indexStatements exportedNames
  cases orderedEnums style enums <;> cases models <;> simp [Statement.exports]

/-- Where enums have different names and models do, no name is exported twice exactly if no enum has the name of
a model. -/
theorem exportedNames_nodup_iff {models : List Model} {enums : List EnumDefinition}
    (henums : (enums.map (·.name)).Nodup) (hmodels : (models.map (·.name)).Nodup) :
    (exportedNames models enums style).Nodup ↔ ∀ e ∈ enums, ∀ m ∈ models, e.name ≠ m.name := by
  have hordered := names_orderedEnums_nodup henums style
  rw [exportedNames, List.nodup_append]
  simp [hordered, hmodels, mem_orderedEnums]

end Declaration

open Declaration

/-! ## Outputs -/

/-- The place of the document that exports everything. -/
def exportPath (settings : Settings) : Path :=
  match settings.outputMode with
  | .combined => combinedPath settings.outputPath
  | .perModel => settings.outputPath.joinText (fileName indexModule)

/-- The statements of the document that exports everything. -/
def Output.exportStatements (settings : Settings) (output : Output) : List Statement :=
  match settings.outputMode with
  | .combined => combinedStatements output.models output.enums settings.style
  | .perModel => indexStatements output.models output.enums settings.style

/-- The document that exports everything. -/
def Output.exportDocument (settings : Settings) (output : Output) : Document :=
  { path := exportPath settings
    content := textOf (Context.of output.models output.enums settings.style)
      (output.exportStatements settings) }

/-- The names that an output exports. -/
def Output.exports (settings : Settings) (output : Output) : List String :=
  (output.exportStatements settings).flatMap Statement.exports

section Output

variable {settings : Settings} {raw : RawSchema} {output : Output}

theorem Output.exports_eq (settings : Settings) (output : Output) :
    output.exports settings = exportedNames output.models output.enums settings.style := by
  unfold Output.exports Output.exportStatements
  cases settings.outputMode
  · exact exports_combinedStatements output.models output.enums settings.style
  · exact exports_indexStatements output.models output.enums settings.style

theorem Output.exportDocument_mem (h : Output.ofRaw settings raw = .ok output) :
    output.exportDocument settings ∈ output.documents := by
  cases hmode : settings.outputMode with
  | combined =>
    simp [combined_of_ofRaw h hmode, exportDocument, exportPath, exportStatements, hmode, combined_eq]
  | perModel =>
    obtain ⟨documents, hper, hdocuments⟩ := perModel_of_ofRaw h hmode
    have hindex : (fileName indexModule, indexDocument output.models output.enums settings.style) ∈
        documents := by
      simp [(perModel_ok_iff.mp hper).2]
    have hmem := List.mem_map_of_mem (f := fun d : String × String =>
      Document.mk (settings.outputPath.joinText d.1) d.2) hindex
    simpa only [hdocuments, exportDocument, exportPath, exportStatements, hmode, ← indexDocument_eq]
      using hmem

/-- The models and enums of an output have the names of raw ones. -/
theorem Output.exists_raw_names (h : Output.ofRaw settings raw = .ok output) :
    (∀ m ∈ output.models, ∃ r ∈ raw.models, r.name = m.name) ∧
      ∀ e ∈ output.enums, ∃ r ∈ raw.enums, r.name = e.name := by
  obtain ⟨models, issues, hbatch, hmodels, henums, -⟩ := Output.ofRaw_ok h
  rw [hmodels, henums]
  constructor
  · intro m hm
    obtain ⟨unmarked, hunmarked, rfl⟩ := List.mem_map.mp hm
    obtain ⟨r, hr, hof⟩ := Model.mem_batch hbatch hunmarked
    exact ⟨r, hr, (Model.ofRaw_ok hof).1.symm⟩
  · intro e he
    obtain ⟨r, hr, hdefinition⟩ := EnumTable.exists_definition_of_mem he
    exact ⟨r, hr, (RawEnum.definition?_name hdefinition).symm⟩

theorem Output.enumNames_nodup (h : Output.ofRaw settings raw = .ok output) :
    (output.enums.map (·.name)).Nodup := by
  obtain ⟨-, -, -, -, henums, -⟩ := Output.ofRaw_ok h
  rw [henums]
  exact EnumTable.names_collect_nodup raw.enums

end Output

/-- Modules declare no enums. -/
theorem Input.enums_of_mongoose {ws : Workspace} {settings : Settings} {raw : RawSchema}
    (hkind : settings.sourceKind = .mongoose) (h : Input.source.raw ws settings = .ok raw) :
    raw.enums = [] := by
  obtain ⟨reading, hread, rfl⟩ := map_eq_ok_iff.mp h
  simp only [SchemaSource.ofSettings, hkind, SchemaSource.read] at hread
  split at hread
  · simp at hread
  · contradiction
  · obtain ⟨files, -, hloaded⟩ := bind_eq_ok_iff.mp hread
    obtain ⟨modules, -, hreading⟩ := bind_eq_ok_iff.mp hloaded
    rw [← Except.ok.inj hreading]
    rfl

/-- One document of an output exports all enums and models. It exports no name twice exactly if no enum has
the name of a model, since two enums or two models never share a name. So it exports none twice if the raw
enums and models have different names, and if the models come from modules. -/
theorem exports_nodup_iff {ws : Workspace} {settings : Settings} {input : Input} {output : Output}
    (h : Output.build ws settings input = .ok output) :
    output.exportDocument settings ∈ output.documents ∧
      ((output.exports settings).Nodup ↔
        ∀ e ∈ output.enums, ∀ m ∈ output.models, e.name ≠ m.name) ∧
      (output.enums.map (·.name)).Nodup ∧ (output.models.map (·.name)).Nodup ∧
      (∀ raw, input.raw ws settings = .ok raw →
        (∀ e ∈ raw.enums, ∀ m ∈ raw.models, e.name ≠ m.name) → (output.exports settings).Nodup) ∧
      (settings.sourceKind = .mongoose → input = .source → (output.exports settings).Nodup) := by
  obtain ⟨raw, hraw, hof⟩ := bind_eq_ok_iff.mp h
  have henums := Output.enumNames_nodup hof
  have hmodels := Output.names_nodup hof
  have hiff := exportedNames_nodup_iff settings.style henums hmodels
  rw [← Output.exports_eq] at hiff
  -- A model that is skipped or an enum that is dropped can only remove a clash of raw names.
  have hdifferent (hne : ∀ e ∈ raw.enums, ∀ m ∈ raw.models, e.name ≠ m.name) :
      (output.exports settings).Nodup := by
    obtain ⟨hrawModels, hrawEnums⟩ := Output.exists_raw_names hof
    refine hiff.mpr fun e he m hm => ?_
    obtain ⟨rawEnum, hrawEnum, henum⟩ := hrawEnums e he
    obtain ⟨rawModel, hrawModel, hmodel⟩ := hrawModels m hm
    exact henum ▸ hmodel ▸ hne rawEnum hrawEnum rawModel hrawModel
  refine ⟨Output.exportDocument_mem hof, hiff, henums, hmodels, fun other hother hne => ?_,
    fun hkind hsource => ?_⟩
  · obtain rfl := Except.ok.inj (hraw.symm.trans hother)
    exact hdifferent hne
  · subst hsource
    exact hdifferent (by simp [Input.enums_of_mongoose hkind hraw])

/-- A schema with the enum `Role` and a model of the given name. -/
def roleTree (model : String) : FileTree :=
  (FileTree.empty ["work"]).put ["work", "schema.prisma"]
    (.file ("enum Role \x7b\n  A\n\x7d\nmodel " ++ model ++ " \x7b\n  id Int @id\n\x7d\n").toUTF8)

/-- Settings that lead from that schema to an output of the given mode. -/
def roleSettings (mode : OutputMode) : Settings :=
  { typesSettings with
    sourceKind := .prisma, schemaPath := ⟨"", ["schema.prisma"]⟩, outputMode := mode }

/-- The output for that schema. -/
def roleOutput (model : String) (mode : OutputMode) : Except Problem Output :=
  Output.build { tree := roleTree model } (roleSettings mode) .source

theorem exports_nodup_iff_role : ∃ output, roleOutput "User" .perModel = .ok output ∧
    output.exports (roleSettings .perModel) = ["Role", "User"] ∧
    (output.exports (roleSettings .perModel)).Nodup := by
  have hnames : (roleOutput "User" .perModel).toOption.map (fun output =>
      (output.exports (roleSettings .perModel),
        decide (∀ e ∈ output.enums, ∀ m ∈ output.models, e.name ≠ m.name))) =
          some (["Role", "User"], true) := by decide +kernel
  obtain ⟨output, hbuilt, houtput⟩ := Option.map_eq_some_iff.mp hnames
  obtain ⟨hexports, hdifferent⟩ := Prod.mk.inj houtput
  have hbuild := eq_ok_of_toOption hbuilt
  exact ⟨output, hbuild, hexports, (exports_nodup_iff hbuild).2.1.mpr (of_decide_eq_true hdifferent)⟩

/-- An enum and a model of one name are both exported under it, in either mode. -/
theorem exports_shared : ∃ combined perModel,
    roleOutput "Role" .combined = .ok combined ∧
    combined.exports (roleSettings .combined) = ["Role", "Role"] ∧
    roleOutput "Role" .perModel = .ok perModel ∧
    perModel.exports (roleSettings .perModel) = ["Role", "Role"] ∧ ¬["Role", "Role"].Nodup := by
  have hcombined : (roleOutput "Role" .combined).toOption.map
      (Output.exports (roleSettings .combined)) = some ["Role", "Role"] := by decide +kernel
  have hperModel : (roleOutput "Role" .perModel).toOption.map
      (Output.exports (roleSettings .perModel)) = some ["Role", "Role"] := by decide +kernel
  obtain ⟨combined, hbuilt, hnames⟩ := Option.map_eq_some_iff.mp hcombined
  obtain ⟨perModel, hbuilt', hnames'⟩ := Option.map_eq_some_iff.mp hperModel
  exact ⟨combined, perModel, eq_ok_of_toOption hbuilt, hnames, eq_ok_of_toOption hbuilt', hnames',
    by decide⟩

end SchemaTypes
