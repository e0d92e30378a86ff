import SchemaTypes.Proofs.Generation.Places
import SchemaTypes.Proofs.Generation.Verification
import SchemaTypes.Proofs.Source.Modules

/-!
# Fatal and other issues

A code is fatal or it is not, and the two kinds do not meet: an issue that ends a run has a fatal code, and
a warning has none. An issue comes from one of a few places. Reading fails with a source that is missing or
unreadable, a batch with a model that is declared twice or with no model at all, and writing with a document
that has no place or is not stored; these end the run. Blocks, modules, models and enums that are left
out, cycles and references to nothing are reported, and the run goes on.

Results:
* `SchemaSource.read_failsFatally`, `Model.batchAfter_failsFatally`, `Output.ofRaw_failsFatally`: no other
  issue ends a step of a run.
* `Reading.issue_code`, `Model.batchAfter_issue_code`, `EnumTable.collect_issue_code`,
  `References.analyze_issue_code`: the codes of the warnings of each step.
* `generate_severity`: the two kinds in the result of a generation.
-/

namespace SchemaTypes

/-- Whether an issue that ends the step has a fatal code. -/
def FailsFatally {α : Type} (x : Except Problem α) : Prop :=
  ∀ i, x = .error (.issue i) → i.code.isFatal = true

section Steps

variable {α β : Type}

theorem FailsFatally.ok (a : α) : FailsFatally (.ok a) := by
  simp [FailsFatally]

theorem FailsFatally.bind {x : Except Problem α} (hx : FailsFatally x) {f : α → Except Problem β}
    (hf : ∀ a, FailsFatally (f a)) : FailsFatally (x.bind f) := by
  intro i hi
  cases x with
  | error problem => exact hx i (congrArg Except.error (Except.error.inj hi))
  | ok a => exact hf a i hi

theorem FailsFatally.map {x : Except Problem α} (hx : FailsFatally x) (f : α → β) :
    FailsFatally (x.map f) := by
  intro i hi
  cases x with
  | error problem => exact hx i (congrArg Except.error (Except.error.inj hi))
  | ok a => simp [Except.map] at hi

theorem FailsFatally.mapError {x : Except Issue α} (hx : ∀ i, x = .error i → i.code.isFatal = true) :
    FailsFatally (x.mapError Problem.issue) := by
  intro i hi
  cases x with
  | error j => exact hx i (congrArg Except.error (Problem.issue.inj (Except.error.inj hi)))
  | ok a => simp [Except.mapError] at hi

/-- A step for each of some items fails as one of them does. -/
theorem exists_error_of_mapM {ε : Type} {f : α → Except ε β} {xs : List α} {e : ε}
    (h : xs.mapM f = .error e) : ∃ x ∈ xs, f x = .error e := by
  induction xs with
  | nil => simp [pure, Except.pure] at h
  | cons x xs ih =>
    rw [List.mapM_cons] at h
    cases hx : f x with
    | error e' =>
      simp only [hx, bind, Except.bind, Except.error.injEq] at h
      exact ⟨x, List.mem_cons_self, h ▸ hx⟩
    | ok b =>
      cases hxs : xs.mapM f with
      | error e' =>
        simp only [hx, hxs, bind, Except.bind, Except.error.injEq] at h
        obtain ⟨y, hy, hfy⟩ := ih (h ▸ hxs)
        exact ⟨y, List.mem_cons_of_mem x hy, hfy⟩
      | ok bs => simp [hx, hxs, bind, Except.bind, pure, Except.pure] at h

theorem FailsFatally.mapM {f : α → Except Problem β} (hf : ∀ a, FailsFatally (f a)) {xs : List α} :
    FailsFatally (xs.mapM f) := fun i hi =>
  have ⟨x, _, hx⟩ := exists_error_of_mapM hi
  hf x i hx

end Steps

/-! ## Reading -/

section Read

variable {tree : FileTree} {location : Path} {i : Issue}

theorem Prisma.schemaFiles_error (h : Prisma.schemaFiles tree location = .error i) :
    i.code = .sourceNotFound := by
  unfold Prisma.schemaFiles at h
  split at h
  · rw [← Except.error.inj h]
    rfl
  · split at h
    · simp at h
    · dsimp only at h
      split at h
      · split at h
        · simp at h
        · rw [← Except.error.inj h]
          rfl
      · simp at h

theorem Prisma.sourceInFile_error (h : Prisma.sourceInFile tree location = .error i) :
    i.code = .sourceNotFound ∨ i.code = .sourceUnreadable := by
  unfold Prisma.sourceInFile at h
  split at h
  · simp at h
  · exact Or.inl (Except.error.inj h ▸ rfl)
  · exact Or.inr (Except.error.inj h ▸ rfl)

theorem Prisma.readSchema_error (h : Prisma.readSchema tree location = .error i) :
    i.code.isFatal = true := by
  simp only [Prisma.readSchema, bind, pure] at h
  cases hfiles : Prisma.schemaFiles tree location with
  | error j =>
    simp only [hfiles, Except.bind, Except.error.injEq] at h
    simp [← h, Prisma.schemaFiles_error hfiles, ErrorCode.isFatal]
  | ok files =>
    cases hsources : files.mapM (Prisma.sourceInFile tree) with
    | error j =>
      obtain ⟨file, -, hfile⟩ := exists_error_of_mapM hsources
      simp only [hfiles, hsources, Except.bind, Except.error.injEq] at h
      rcases Prisma.sourceInFile_error hfile with hcode | hcode <;>
        simp [← h, hcode, ErrorCode.isFatal]
    | ok sources => simp [hfiles, hsources, Except.bind, Except.pure] at h

theorem Mongoose.moduleFiles_failsFatally (tree : FileTree) (search : ModuleSearch)
    (location : Path) : FailsFatally (Mongoose.moduleFiles tree search location) := by
  unfold Mongoose.moduleFiles
  split
  · intro j hj
    rw [← Problem.issue.inj (Except.error.inj hj)]
    rfl
  · split
    · exact .ok _
    · intro j hj
      cases hfound : tree.findFiles location search.includes search.excludes <;>
        simp [hfound, Except.mapError] at hj

/-- No issue ends the loading of a module. -/
theorem Mongoose.load_failsFatally (ws : Workspace) (loader : ModuleLoader) (path : Path) :
    FailsFatally (Mongoose.load ws loader path) := by
  cases loader with
  | contract => exact .ok _
  | node runtime =>
    refine FailsFatally.map (fun i hi => ?_) _
    cases (Mongoose.ModuleOutcome.contract_eq_error_iff (o := .ran runtime (ws.outcome path)).mp hi).2

/-- Reading fails with a fatal issue. -/
theorem SchemaSource.read_failsFatally (ws : Workspace) (location : Path) (source : SchemaSource) :
    FailsFatally (source.read ws location) := by
  unfold SchemaSource.read
  split
  · simp [FailsFatally]
  · exact FailsFatally.map (FailsFatally.mapError fun _ => Prisma.readSchema_error) _
  · refine (Mongoose.moduleFiles_failsFatally _ _ _).bind fun files => ?_
    exact (FailsFatally.mapM fun path => Mongoose.load_failsFatally ws _ path).bind fun _ => .ok _

/-- What is left out of a source is reported as a block or a module. -/
theorem Reading.issue_code (reading : Reading) : ∀ i ∈ reading.raw.issues,
    i.code = .schemaParseError ∨ i.code = .moduleLoadError := by
  intro i hi
  cases reading with
  | prisma schema =>
    obtain ⟨fault, -, rfl⟩ := List.mem_map.mp hi
    exact Or.inl rfl
  | mongoose modules =>
    obtain ⟨⟨path, fault⟩, -, rfl⟩ := List.mem_map.mp hi
    exact Or.inr rfl

end Read

/-! ## Building an output -/

theorem Model.ofRaw_issue_code {raw : RawModel} {i : Issue}
    (h : Model.ofRaw raw = .error (.issue i)) : i.code = .malformedField := by
  unfold Model.ofRaw at h
  split at h
  · rw [← Problem.issue.inj (Except.error.inj h)]
    rfl
  · dsimp only at h
    split at h <;> simp at h

/-- A batch fails with a model that is declared twice. -/
theorem Model.batchAfter_failsFatally (seen raws : List RawModel) :
    FailsFatally (Model.batchAfter seen raws) := by
  induction raws generalizing seen with
  | nil => exact .ok _
  | cons raw raws ih =>
    have hrest (f : List Model × List Issue → List Model × List Issue) :
        FailsFatally ((Model.batchAfter (seen ++ [raw]) raws).bind fun batch => .ok (f batch)) :=
      (ih (seen ++ [raw])).bind fun _ => .ok _
    unfold Model.batchAfter
    dsimp only
    split
    · split
      · exact hrest fun batch => (_ :: batch.1, batch.2)
      · exact hrest fun batch => (batch.1, _ :: batch.2)
      · rename_i hother _
        intro i hi
        exact absurd (Except.error.inj hi) (hother i)
    · intro i hi
      rw [← Problem.issue.inj (Except.error.inj hi)]
      rfl

/-- A batch reports the models that are left out. -/
theorem Model.batchAfter_issue_code {seen raws : List RawModel} {models : List Model}
    {issues : List Issue} (h : Model.batchAfter seen raws = .ok (models, issues)) :
    ∀ i ∈ issues, i.code = .malformedField := by
  induction raws generalizing seen models issues with
  | nil =>
    obtain ⟨-, rfl⟩ := Prod.mk.inj (Except.ok.inj h)
    simp
  | cons raw raws ih =>
    unfold Model.batchAfter at h
    dsimp only at h
    split at h
    · split at h
      · obtain ⟨⟨later, reported⟩, hlater, hresult⟩ := bind_eq_ok_iff.mp h
        obtain ⟨-, rfl⟩ := Prod.mk.inj (Except.ok.inj hresult)
        exact ih hlater
      · rename_i i hraw
        obtain ⟨⟨later, reported⟩, hlater, hresult⟩ := bind_eq_ok_iff.mp h
        obtain ⟨-, rfl⟩ := Prod.mk.inj (Except.ok.inj hresult)
        -- The issue is completed by a path and an element, and keeps its code.
        have hcode := Model.ofRaw_issue_code hraw
        exact List.forall_mem_cons.mpr ⟨hcode, ih hlater⟩
      · simp at h
    · simp at h

theorem EnumTable.add_issue_code {t : EnumTable} {i : Issue} {raw : RawEnum}
    (h : i ∈ (t.add raw).issues) :
    i ∈ t.issues ∨ i.code = .schemaParseError ∨ i.code = .duplicateEnum := by
  unfold EnumTable.add at h
  split at h
  · rcases List.mem_append.mp h with h | h
    · exact Or.inl h
    · exact Or.inr (Or.inl (List.mem_singleton.mp h ▸ rfl))
  · split at h
    · exact Or.inl h
    · split at h
      · exact Or.inl h
      · rcases List.mem_append.mp h with h | h
        · exact Or.inl h
        · exact Or.inr (Or.inr (List.mem_singleton.mp h ▸ rfl))

/-- The enums that are left out are reported. -/
theorem EnumTable.collect_issue_code (raws : List RawEnum) :
    ∀ i ∈ (EnumTable.collect raws).issues, i.code = .schemaParseError ∨ i.code = .duplicateEnum := by
  have hfold (t : EnumTable)
      (ht : ∀ i ∈ t.issues, i.code = .schemaParseError ∨ i.code = .duplicateEnum) :
      ∀ i ∈ (raws.foldl EnumTable.add t).issues,
        i.code = .schemaParseError ∨ i.code = .duplicateEnum := by
    induction raws generalizing t with
    | nil => exact ht
    | cons raw raws ih =>
      exact ih (t.add raw) fun i hi => (EnumTable.add_issue_code hi).elim (ht i) id
  exact hfold {} (by simp)

theorem References.analyze_issue_code (models : List Model) :
    ∀ i ∈ (References.analyze models).issues,
      i.code = .cycleDetected ∨ i.code = .unresolvedReference := by
  intro i hi
  rcases List.mem_append.mp hi with hi | hi
  · obtain ⟨cycle, -, rfl⟩ := List.mem_map.mp hi
    exact Or.inl rfl
  · obtain ⟨name, -, hname⟩ := List.mem_flatMap.mp hi
    obtain ⟨target, -, rfl⟩ := List.mem_map.mp hname
    exact Or.inr rfl

theorem documentsOf_error {settings : Settings} {models : List Model} {enums : List EnumDefinition}
    {i : Issue} (h : documentsOf settings models enums = .error i) :
    i.code = .outputNameConflict := by
  unfold documentsOf at h
  split at h
  · simp at h
  · cases hdocuments : Declaration.perModel models enums settings.style with
    | ok documents => simp [hdocuments, Except.map] at h
    | error j =>
      simp only [hdocuments, Except.map, Except.error.injEq] at h
      unfold Declaration.perModel at hdocuments
      split at hdocuments
      · rw [← h, ← Except.error.inj hdocuments]
        rfl
      · simp at hdocuments

variable {ws : Workspace} {settings : Settings} {raw : RawSchema} {output : Output}

/-- The steps from a raw schema on fail with a fatal issue. -/
theorem Output.ofRaw_failsFatally (settings : Settings) (raw : RawSchema) :
    FailsFatally (Output.ofRaw settings raw) := by
  refine FailsFatally.bind (Model.batchAfter_failsFatally [] raw.models) fun (models, issues) => ?_
  have hdocuments : FailsFatally ((documentsOf settings (References.analyze models).models
      (EnumTable.collect raw.enums).enums).mapError Problem.issue) :=
    FailsFatally.mapError fun i hi => documentsOf_error hi ▸ rfl
  have hmissing : FailsFatally (throw (.issue (.noModelsFound (some settings.schemaPath.toString))) :
      Except Problem Unit) := fun i hi => Problem.issue.inj (Except.error.inj hi) ▸ rfl
  dsimp only
  split
  · exact hmissing.bind fun _ => hdocuments.bind fun _ => .ok _
  · exact hdocuments.bind fun _ => .ok _

/-- The warnings of an output are those of its steps. -/
theorem Output.issue_not_fatal (h : Output.ofRaw settings raw = .ok output)
    (hraw : ∀ i ∈ raw.issues, i.code.isFatal = false) :
    ∀ i ∈ output.issues, i.code.isFatal = false := by
  obtain ⟨models, issues, hbatch, -, -, -, hissues⟩ := Output.ofRaw_ok h
  intro i hi
  simp only [hissues, List.mem_append] at hi
  rcases hi with ((hi | hi) | hi) | hi
  · exact hraw i hi
  · simp [Model.batchAfter_issue_code hbatch i hi, ErrorCode.isFatal]
  · rcases EnumTable.collect_issue_code raw.enums i hi with hcode | hcode <;>
      simp [hcode, ErrorCode.isFatal]
  · rcases References.analyze_issue_code models i hi with hcode | hcode <;>
      simp [hcode, ErrorCode.isFatal]

/-! ## Runs -/

/-- Whether the raw schema of a run is read: from the source that the settings ask for, or from another
one. -/
def Input.IsRead (ws : Workspace) (settings : Settings) : Input → Prop
  | .source => True
  | .given raw => ∃ source reading,
      SchemaSource.read ws settings.schemaPath source = .ok reading ∧ reading.raw = raw

theorem Input.raw_failsFatally (ws : Workspace) (settings : Settings) (input : Input) :
    FailsFatally (input.raw ws settings) := by
  cases input with
  | source => exact (SchemaSource.read_failsFatally ws settings.schemaPath _).map Reading.raw
  | given raw => exact .ok raw

theorem Input.raw_eq_reading {input : Input} (hread : input.IsRead ws settings)
    (h : input.raw ws settings = .ok raw) : ∃ reading : Reading, reading.raw = raw := by
  cases input with
  | source =>
    obtain ⟨reading, -, hraw⟩ := map_eq_ok_iff.mp h
    exact ⟨reading, hraw⟩
  | given other =>
    obtain ⟨source, reading, -, hraw⟩ := hread
    exact ⟨reading, hraw.trans (Except.ok.inj h)⟩

theorem Output.build_failsFatally (ws : Workspace) (settings : Settings) (input : Input) :
    FailsFatally (Output.build ws settings input) :=
  (input.raw_failsFatally ws settings).bind fun raw => Output.ofRaw_failsFatally settings raw

theorem Output.build_issue_not_fatal {input : Input} (hread : input.IsRead ws settings)
    (h : Output.build ws settings input = .ok output) :
    ∀ i ∈ output.issues, i.code.isFatal = false := by
  obtain ⟨raw, hraw, houtput⟩ := bind_eq_ok_iff.mp h
  obtain ⟨reading, rfl⟩ := Input.raw_eq_reading hread hraw
  refine Output.issue_not_fatal houtput fun i hi => ?_
  rcases Reading.issue_code reading i hi with hcode | hcode <;> simp [hcode, ErrorCode.isFatal]

/-- The result of a generation is a success exactly without an error. The error has a fatal code, and no
warning has one. -/
theorem generate_severity {σ : Type} {input : Input} {delivery : Delivery σ} {state : σ}
    {r : GenerationResult} (hread : input.IsRead ws settings)
    (h : (generate ws settings input delivery state).1 = .ok r) :
    (r.isOk = true ↔ r.error = none) ∧ (∀ i, r.error = some i → i.code.isFatal = true) ∧
      ∀ i ∈ r.warnings, i.code.isFatal = false := by
  unfold generate at h
  split at h
  · rename_i i hbuild
    obtain rfl := Except.ok.inj h
    have hfatal := Output.build_failsFatally ws settings input i hbuild
    simp [hfatal]
  · simp at h
  · rename_i output hbuild
    have hwarnings := Output.build_issue_not_fatal hread hbuild
    cases delivery with
    | dryRun =>
      obtain rfl := Except.ok.inj h
      exact ⟨by simp [GenerationResult.ofDryRun, GenerationResult.ofOutput],
        by simp [GenerationResult.ofDryRun, GenerationResult.ofOutput], hwarnings⟩
    | write w =>
      simp only [GenerationResult.ofWriting?] at h
      split at h
      · simp at h
      · obtain rfl := Except.ok.inj h
        refine ⟨by simp [GenerationResult.ofWriting], fun i hi => ?_, hwarnings⟩
        obtain ⟨⟨d, reason⟩, -, rfl⟩ := Option.map_eq_some_iff.mp hi
        rfl

/-- A directory with a schema whose second model has no closing brace. -/
def tornTree : FileTree :=
  (FileTree.empty ["work"]).put ["work", "schema.prisma"]
    (.file "model User \x7b\n  id Int\n\x7d\nmodel Post \x7b\n".toUTF8)

/-- Settings that lead from that schema to one document. -/
def tornSettings : Settings :=
  { typesSettings with sourceKind := .prisma, schemaPath := ⟨"", ["schema.prisma"]⟩ }

/-- The generation for that schema with a writer that fails at once. -/
def generateTorn : Except Problem GenerationResult :=
  (generate { tree := tornTree } tornSettings .source (.write (Writer.failingAt 1 none)) 0).1

theorem generate_severity_torn : ∃ r, generateTorn = .ok r ∧
    r.error.map (·.code) = some .outputUnwritable ∧ r.warnings.map (·.code) = [.schemaParseError] ∧
    (r.isOk = true ↔ r.error = none) ∧ (∀ i, r.error = some i → i.code.isFatal = true) ∧
    ∀ i ∈ r.warnings, i.code.isFatal = false := by
  have hrun : generateTorn.toOption.map (fun r => (r.error.map (·.code), r.warnings.map (·.code))) =
      some (some .outputUnwritable, [.schemaParseError]) := by decide +kernel
  obtain ⟨r, hr, hcodes⟩ := Option.map_eq_some_iff.mp hrun
  have hresult := eq_ok_of_toOption hr
  obtain ⟨herror, hwarnings⟩ := Prod.mk.inj hcodes
  have hread : Input.IsRead { tree := tornTree } tornSettings .source := trivial
  exact ⟨r, hresult, herror, hwarnings, generate_severity hread hresult⟩

end SchemaTypes
