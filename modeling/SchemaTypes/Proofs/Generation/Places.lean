import SchemaTypes.Generation.Output
import SchemaTypes.Proofs.FileTree.PathText
import SchemaTypes.Proofs.Model.Naming

/-!
# The places of documents

The name of a model is joined to the output path as a text, so it is read as a path: what stands before
its last separator leads from the output path to the directory of the document, and only what stands
behind it is the name of the document there. The names of the other two documents have no separators. A
name without separators stays in the output directory, and there nothing else has its document, since
the names of a batch differ and those of the other two documents are reserved.

Results:
* `joinText_fileName`: the directory and the name of a document.
* `paths_of_perModel`: the paths of all documents, in order.
* `places_of_perModel`: when all documents stand in the output directory, and when no two have one place.
-/

namespace SchemaTypes

namespace Declaration

/-! ## The document of a model -/

/-- The directory to which the name of a model leads from the output path. -/
def homeOf (output : Path) (name : String) : Path :=
  output.joinText (Path.directoryText name)

/-- The name of a model without the directory to which it leads. -/
def baseName (name : String) : String :=
  Path.baseText name

theorem toList_fileName (name : String) : (fileName name).toList = name.toList ++ ['.', 't', 's'] := by
  simp [fileName]

theorem directoryText_fileName (name : String) :
    Path.directoryText (fileName name) = Path.directoryText name := by
  simp [Path.directoryText, toList_fileName]

theorem baseText_fileName (name : String) :
    Path.baseText (fileName name) = fileName (baseName name) := by
  rw [← String.toList_inj, toList_fileName]
  simp [Path.baseText, baseName, toList_fileName]

theorem joinText_fileName (output : Path) (name : String) :
    output.joinText (fileName name) = (homeOf output name).child (fileName (baseName name)) := by
  have hlength : 3 ≤ (fileName (baseName name)).toList.length := by simp [toList_fileName]
  have hne (s : String) (hs : s.toList.length < 3) : fileName (baseName name) ≠ s := by
    rintro rfl
    omega
  rw [Path.joinText, Path.ofString_eq_child (baseText_fileName name) (hne "" (by decide))
    (hne "." (by decide)), directoryText_fileName, Path.join_child]
  rfl

theorem homeOf_of_no_separator (output : Path) {name : String} (h : '/' ∉ name.toList) :
    homeOf output name = output := by
  rw [homeOf, Path.directoryText_of_no_separator h, Path.joinText_empty]

theorem fileName_inj {name other : String} : fileName name = fileName other ↔ name = other := by
  simp [fileName, ← String.toList_inj]

/-! ## The documents of a batch -/

variable {models : List Model} {enums : List EnumDefinition} {style : Style}
  {documents : List (String × String)}

/-- The names that lead to the documents of a batch, in order. -/
def documentNames (models : List Model) : List String :=
  models.map (·.name) ++ [enumsModule, indexModule]

theorem map_fst_of_perModel (h : perModel models enums style = .ok documents) :
    documents.map (·.1) = (documentNames models).map fileName := by
  rw [(perModel_ok_iff.mp h).2]
  simp [documentNames, Function.comp_def]

/-- No model has the name of one of the other two documents. -/
theorem name_ne_of_perModel (h : perModel models enums style = .ok documents) :
    ∀ m ∈ models, m.name ≠ enumsModule ∧ m.name ≠ indexModule := by
  intro m hm
  have hfree := (perModel_ok_iff.mp h).1 m hm
  constructor <;> intro hname <;> rw [hname] at hfree <;> exact absurd hfree (by decide +kernel)

end Declaration

open Declaration

variable {settings : Settings} {raw : RawSchema} {output : Output}

/-- What an output is made of. -/
theorem Output.ofRaw_ok (h : Output.ofRaw settings raw = .ok output) :
    ∃ models issues, Model.batch raw.models = .ok (models, issues) ∧
      output.models = (References.analyze models).models ∧
      output.enums = (EnumTable.collect raw.enums).enums ∧
      documentsOf settings output.models output.enums = .ok output.documents ∧
      output.issues = raw.issues ++ issues ++ (EnumTable.collect raw.enums).issues ++
        (References.analyze models).issues := by
  simp only [Output.ofRaw, bind, bind_eq_ok_iff] at h
  obtain ⟨⟨models, issues⟩, hbatch, h⟩ := h
  dsimp only at h
  split at h
  · simp [bind_eq_ok_iff, throw, throwThe, MonadExceptOf.throw] at h
  · obtain ⟨documents, hdocuments, h⟩ := bind_eq_ok_iff.mp h
    obtain rfl := Except.ok.inj h
    refine ⟨models, issues, hbatch, rfl, rfl, ?_, rfl⟩
    cases hof : documentsOf settings (References.analyze models).models
        (EnumTable.collect raw.enums).enums with
    | error i => simp [hof, Except.mapError] at hdocuments
    | ok found =>
      rw [hof] at hdocuments
      exact congrArg Except.ok (Except.ok.inj hdocuments)

theorem Output.names_nodup (h : Output.ofRaw settings raw = .ok output) :
    (output.models.map (·.name)).Nodup := by
  obtain ⟨models, issues, hbatch, hmodels, -⟩ := Output.ofRaw_ok h
  rw [hmodels, References.analyze_models]
  exact Model.names_batch_nodup hbatch

theorem combined_of_ofRaw (h : Output.ofRaw settings raw = .ok output)
    (hmode : settings.outputMode = .combined) :
    output.documents = [{ path := combinedPath settings.outputPath
                          content := combined output.models output.enums settings.style }] := by
  obtain ⟨models, issues, -, -, -, hdocuments, -⟩ := Output.ofRaw_ok h
  simp only [documentsOf, hmode, Except.ok.injEq] at hdocuments
  exact hdocuments.symm

theorem perModel_of_ofRaw (h : Output.ofRaw settings raw = .ok output)
    (hmode : settings.outputMode = .perModel) :
    ∃ documents, perModel output.models output.enums settings.style = .ok documents ∧
      output.documents = documents.map fun d =>
        { path := settings.outputPath.joinText d.1, content := d.2 } := by
  obtain ⟨models, issues, -, -, -, hdocuments, -⟩ := Output.ofRaw_ok h
  simp only [documentsOf, hmode] at hdocuments
  obtain ⟨documents, hper, hplaced⟩ := map_eq_ok_iff.mp hdocuments
  exact ⟨documents, hper, hplaced.symm⟩

/-- The paths of the documents: each name leads to a directory, and has the rest of it as the name of
the document there. -/
theorem paths_of_perModel (h : Output.ofRaw settings raw = .ok output)
    (hmode : settings.outputMode = .perModel) :
    output.documents.map (·.path) = (documentNames output.models).map fun name =>
      (homeOf settings.outputPath name).child (fileName (baseName name)) := by
  obtain ⟨documents, hper, hdocuments⟩ := perModel_of_ofRaw h hmode
  have hnames := congrArg (List.map settings.outputPath.joinText) (map_fst_of_perModel hper)
  simpa [hdocuments, Function.comp_def, joinText_fileName] using hnames

/-- The names without separators are those of different documents. -/
theorem documentNames_nodup (h : Output.ofRaw settings raw = .ok output)
    (hmode : settings.outputMode = .perModel) : (documentNames output.models).Nodup := by
  obtain ⟨documents, hper, -⟩ := perModel_of_ofRaw h hmode
  have hfree := name_ne_of_perModel hper
  rw [documentNames, List.nodup_append]
  refine ⟨Output.names_nodup h, by decide, fun name hname other hother => ?_⟩
  obtain ⟨m, hm, rfl⟩ := List.mem_map.mp hname
  simp only [List.mem_cons, List.not_mem_nil, or_false] at hother
  rcases hother with rfl | rfl
  · exact (hfree m hm).1
  · exact (hfree m hm).2

/-- Where the documents of an output stand, one for each model and two more. They all stand in the output
directory exactly if the name of every model leads there, and no two have one place exactly if no two
names lead to one directory and end in one name. Both hold if no name has a separator. -/
theorem places_of_perModel (h : Output.ofRaw settings raw = .ok output)
    (hmode : settings.outputMode = .perModel) :
    output.documents.length = output.models.length + 2 ∧
    ((∀ d ∈ output.documents, d.path.parent = settings.outputPath) ↔
      ∀ m ∈ output.models, homeOf settings.outputPath m.name = settings.outputPath) ∧
    ((output.documents.map (·.path)).Nodup ↔ ((documentNames output.models).map fun name =>
      (homeOf settings.outputPath name, baseName name)).Nodup) ∧
    ((∀ m ∈ output.models, '/' ∉ m.name.toList) →
      (∀ d ∈ output.documents, d.path.parent = settings.outputPath) ∧
        (output.documents.map (·.path)).Nodup) := by
  have hpaths := paths_of_perModel h hmode
  have hother : ∀ name ∈ [enumsModule, indexModule], '/' ∉ name.toList := by decide
  have hlength : output.documents.length = output.models.length + 2 := by
    simpa [documentNames] using congrArg List.length hpaths
  have hparents : (∀ d ∈ output.documents, d.path.parent = settings.outputPath) ↔
      ∀ m ∈ output.models, homeOf settings.outputPath m.name = settings.outputPath := by
    have hhome : ∀ name ∈ [enumsModule, indexModule],
        homeOf settings.outputPath name = settings.outputPath :=
      fun name hname => homeOf_of_no_separator _ (hother name hname)
    calc (∀ d ∈ output.documents, d.path.parent = settings.outputPath)
      _ ↔ ∀ p ∈ output.documents.map (·.path), p.parent = settings.outputPath := by simp
      _ ↔ ∀ name ∈ documentNames output.models,
            homeOf settings.outputPath name = settings.outputPath := by
        rw [hpaths]
        simp [Path.parent_child]
      _ ↔ ∀ m ∈ output.models, homeOf settings.outputPath m.name = settings.outputPath := by
        rw [documentNames, List.forall_mem_append, and_iff_left hhome]
        simp
  have hnodup : (output.documents.map (·.path)).Nodup ↔
      ((documentNames output.models).map fun name =>
        (homeOf settings.outputPath name, baseName name)).Nodup := by
    have hinjective : Function.Injective fun place : Path × String =>
        place.1.child (fileName place.2) := by
      intro place other heq
      obtain ⟨hhome, hbase⟩ := Path.child_inj.mp heq
      exact Prod.ext hhome (fileName_inj.mp hbase)
    rw [hpaths, ← List.nodup_map_iff hinjective, List.map_map]
    rfl
  refine ⟨hlength, hparents, hnodup, fun hplain => ⟨hparents.mpr fun m hm => ?_, hnodup.mpr ?_⟩⟩
  · exact homeOf_of_no_separator _ (hplain m hm)
  · have hnames : ∀ name ∈ documentNames output.models, '/' ∉ name.toList := by
      intro name hname
      rcases List.mem_append.mp hname with hname | hname
      · obtain ⟨m, hm, rfl⟩ := List.mem_map.mp hname
        exact hplain m hm
      · exact hother name hname
    have hsame : ((documentNames output.models).map fun name =>
        (homeOf settings.outputPath name, baseName name)) =
          (documentNames output.models).map fun name => (settings.outputPath, name) :=
      List.map_congr_left fun name hname => by
        rw [homeOf_of_no_separator _ (hnames name hname), baseName,
          Path.baseText_of_no_separator (hnames name hname)]
    rw [hsame]
    exact (documentNames_nodup h hmode).map fun _ _ heq => congrArg Prod.snd heq

/-- Settings for one document per model. -/
def perModelSettings : Settings :=
  { sourceKind := .mongoose, schemaPath := ⟨"", ["models"]⟩, outputPath := ⟨"", ["types"]⟩
    outputMode := .perModel, includeComments := false, readonly := false, enumOrder := .insertion
    dateType := "Date", banner := none, includes := none, excludes := none, loader := .contract
    nodeExecutable := "node" }

/-- A schema of models without fields. -/
def namesSchema (names : List String) : RawSchema :=
  { models := names.map fun name => { name, sourceKind := "mongoose", fields := [] } }

/-- The paths of the documents for models of the given names. -/
def documentPaths (names : List String) : Option (List Path) :=
  (Output.ofRaw perModelSettings (namesSchema names)).toOption.map fun output =>
    output.documents.map (·.path)

/-- Names with points, and one that only starts like a reserved one. -/
theorem places_of_perModel_names :
    ∃ output, Output.ofRaw perModelSettings (namesSchema ["..", "a.b", "enums."]) = .ok output ∧
      perModelSettings.outputMode = .perModel ∧ (∀ m ∈ output.models, '/' ∉ m.name.toList) ∧
      output.documents.length = output.models.length + 2 ∧
      (∀ d ∈ output.documents, d.path.parent = ⟨"", ["types"]⟩) ∧
      (output.documents.map (·.path)).Nodup := by
  have hrun : (Output.ofRaw perModelSettings (namesSchema ["..", "a.b", "enums."])).toOption.map
      (fun output => output.models.map (·.name)) = some ["..", "a.b", "enums."] := by decide +kernel
  cases houtput : Output.ofRaw perModelSettings (namesSchema ["..", "a.b", "enums."]) with
  | error problem => simp [houtput, Except.toOption] at hrun
  | ok output =>
    simp only [houtput, Except.toOption, Option.map_some, Option.some.injEq] at hrun
    have hplain : ∀ m ∈ output.models, '/' ∉ m.name.toList := by
      intro m hm
      have hnames : ∀ name ∈ ["..", "a.b", "enums."], '/' ∉ name.toList := by decide
      exact hnames m.name (hrun ▸ List.mem_map_of_mem hm)
    obtain ⟨hlength, -, -, hplaces⟩ := places_of_perModel houtput rfl
    exact ⟨output, rfl, rfl, hplain, hlength, hplaces hplain⟩

/-- The document of a model may take the place of that of the enums, or stand outside of the output
directory. -/
theorem places_with_separators : documentPaths ["./enums", "../User"] =
    some [⟨"", ["types", "enums.ts"]⟩, ⟨"", ["types", "..", "User.ts"]⟩,
      ⟨"", ["types", "enums.ts"]⟩, ⟨"", ["types", "index.ts"]⟩] := by
  decide +kernel

end SchemaTypes
