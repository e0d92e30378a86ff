import SchemaTypes.Proofs.Generation.Verification
import SchemaTypes.Proofs.Model.Batch

/-!
# Runs without a result

A run returns a result, with the issue that ended it if there is one, unless something goes wrong for
which there is no issue. Three things can: the batch comes to a model without a name or of no known
source, a verification does not get to look at the path of a document, and the writer to files is given a
path that it cannot hand over.

Results:
* `ofRaw_error_cases`, `ofRaw_invalid_iff`: how building an output can fail.
* `inspect_returns_iff`, `verify_returns_iff`, `generate_returns_iff`: when a run returns a result.
* `writeAll_broken_eq_none`: the writer to files breaks off only at paths that hold a NUL character.
* `returns_unless_unlabelled`: all of this for the runs on one schema.
-/

namespace SchemaTypes

open FileTree

variable {ws : Workspace} {settings : Settings} {raw : RawSchema} {σ : Type}

/-! ## Building an output -/

theorem Output.ofRaw_batch_error {problem : Problem} (h : Model.batch raw.models = .error problem) :
    Output.ofRaw settings raw = .error problem := by
  simp [Output.ofRaw, h, bind, Except.bind]

/-- Behind a batch that is normalized only issues end a run. -/
theorem Output.ofRaw_batch_ok (settings : Settings) {models : List Model} {issues : List Issue}
    (h : Model.batch raw.models = .ok (models, issues)) :
    (∃ output, Output.ofRaw settings raw = .ok output) ∨
      ∃ i, Output.ofRaw settings raw = .error (.issue i) := by
  by_cases hempty : models.isEmpty = true
  · refine Or.inr ⟨.noModelsFound (some settings.schemaPath.toString), ?_⟩
    simp [Output.ofRaw, h, hempty, bind, Except.bind, throw, throwThe, MonadExceptOf.throw]
  cases hdocuments : documentsOf settings (References.analyze models).models
      (EnumTable.collect raw.enums).enums with
  | error i =>
    have hreported : (documentsOf settings (References.analyze models).models
        (EnumTable.collect raw.enums).enums).mapError Problem.issue = .error (.issue i) := by
      rw [hdocuments]
      rfl
    refine Or.inr ⟨i, ?_⟩
    simp [Output.ofRaw, h, hempty, hreported, bind, Except.bind]
  | ok documents =>
    have hbuilt : (documentsOf settings (References.analyze models).models
        (EnumTable.collect raw.enums).enums).mapError Problem.issue = .ok documents := by
      rw [hdocuments]
      rfl
    refine Or.inl ?_
    simp [Output.ofRaw, h, hempty, hbuilt, bind, Except.bind, pure, Except.pure]

theorem Output.ofRaw_cases (settings : Settings) (raw : RawSchema) :
    (∃ output, Output.ofRaw settings raw = .ok output) ∨
      (∃ i, Output.ofRaw settings raw = .error (.issue i)) ∨
        ∃ faults, Output.ofRaw settings raw = .error (.invalid faults) := by
  cases hbatch : Model.batch raw.models with
  | ok batch =>
    rcases Output.ofRaw_batch_ok settings hbatch with hok | hissue
    · exact Or.inl hok
    · exact Or.inr (Or.inl hissue)
  | error problem =>
    rw [Output.ofRaw_batch_error hbatch]
    rcases Model.batchAfter_error_cases hbatch with ⟨i, rfl⟩ | ⟨faults, rfl⟩
    · exact Or.inr (Or.inl ⟨i, rfl⟩)
    · exact Or.inr (Or.inr ⟨faults, rfl⟩)

theorem Output.ofRaw_invalid_iff (settings : Settings) (raw : RawSchema) :
    (∃ faults, Output.ofRaw settings raw = .error (.invalid faults)) ↔
      ReachesUnlabelled raw.models := by
  rw [← batch_invalid_iff]
  cases hbatch : Model.batch raw.models with
  | ok batch =>
    rcases Output.ofRaw_batch_ok settings hbatch with ⟨output, h⟩ | ⟨i, h⟩ <;>
      simp [h]
  | error problem => simp [Output.ofRaw_batch_error hbatch]

/-! ## Writing -/

/-- The writer to files breaks off only at paths with the character that ends a text. -/
theorem writeAll_broken_eq_none {documents : List Document}
    (h : ∀ d ∈ documents, d.path.holdsNul = false) (tree : FileTree) :
    (writeAll Writer.toFiles tree documents).broken = none := by
  induction documents generalizing tree with
  | nil => rfl
  | cons d documents ih =>
    rcases hwrite : Writer.toFiles.write tree d.path d.content with ⟨next, outcome⟩
    simp only [writeAll, hwrite]
    cases outcome with
    | stored => exact ih (fun e he => h e (List.mem_cons_of_mem _ he)) next
    | failed reason => rfl
    | broken fault =>
      simp only [Writer.toFiles, Prod.mk.injEq] at hwrite
      have houtcome := hwrite.2
      split at houtcome
      · simp at houtcome
      · rename_i hnul
        have hd := writeText_nul hnul
        simp [h d List.mem_cons_self] at hd
      · simp at houtcome

/-- A writer that fails at a document does not break off. -/
theorem broken_eq_none_of_failure {w : Writer σ} {state : σ} {documents : List Document}
    {failed : Document × String} (h : (writeAll w state documents).failure = some failed) :
    (writeAll w state documents).broken = none := by
  induction documents generalizing state with
  | nil => rfl
  | cons d documents ih =>
    rcases hwrite : w.write state d.path d.content with ⟨next, outcome⟩
    simp only [writeAll, hwrite] at h ⊢
    cases outcome with
    | stored => exact ih h
    | failed reason => rfl
    | broken fault => simp at h

/-! ## Runs -/

theorem inspect_returns_iff (ws : Workspace) (settings : Settings) (raw : RawSchema) :
    (∃ r, inspect ws settings (.given raw) = .ok r) ↔ ¬ReachesUnlabelled raw.models := by
  rw [← Output.ofRaw_invalid_iff settings]
  rcases Output.ofRaw_cases settings raw with ⟨output, h⟩ | ⟨i, h⟩ | ⟨faults, h⟩ <;>
    simp [inspect, Output.build, Input.raw, h, Except.bind]

/-- A verification also has to get to look at the path of every document. -/
theorem verify_returns_iff (ws : Workspace) (settings : Settings) (raw : RawSchema) :
    (∃ v, verify ws settings (.given raw) = .ok v) ↔ ¬ReachesUnlabelled raw.models ∧
      ∀ output, Output.ofRaw settings raw = .ok output →
        ∀ d ∈ output.documents, ws.tree.lookFault? d.path = none := by
  rw [← Output.ofRaw_invalid_iff settings]
  rcases Output.ofRaw_cases settings raw with ⟨output, h⟩ | ⟨i, h⟩ | ⟨faults, h⟩
  · cases hlook : output.documents.findSome? fun d => ws.tree.lookFault? d.path with
    | none =>
      have hnone := List.findSome?_eq_none_iff.mp hlook
      simpa [verify, Output.build, Input.raw, h, Except.bind, hlook] using hnone
    | some fault =>
      have hsome : ¬∀ d ∈ output.documents, ws.tree.lookFault? d.path = none := by
        intro hall
        simp [List.findSome?_eq_none_iff.mpr hall] at hlook
      simpa [verify, Output.build, Input.raw, h, Except.bind, hlook] using hsome
  · simp [verify, Output.build, Input.raw, h, Except.bind]
  · simp [verify, Output.build, Input.raw, h, Except.bind]

theorem dryRun_returns_iff (ws : Workspace) (settings : Settings) (raw : RawSchema) (state : σ) :
    (∃ r, (generate ws settings (.given raw) .dryRun state).1 = .ok r) ↔
      ¬ReachesUnlabelled raw.models := by
  rw [← Output.ofRaw_invalid_iff settings]
  rcases Output.ofRaw_cases settings raw with ⟨output, h⟩ | ⟨i, h⟩ | ⟨faults, h⟩ <;>
    simp [generate, Output.build, Input.raw, h, Except.bind]

/-- The writer of a generation must not break off. -/
theorem generate_returns_iff (ws : Workspace) (settings : Settings) (raw : RawSchema) (w : Writer σ)
    (state : σ) :
    (∃ r, (generate ws settings (.given raw) (.write w) state).1 = .ok r) ↔
      ¬ReachesUnlabelled raw.models ∧ ∀ output, Output.ofRaw settings raw = .ok output →
        (writeAll w state output.documents).broken = none := by
  rw [← Output.ofRaw_invalid_iff settings]
  rcases Output.ofRaw_cases settings raw with ⟨output, h⟩ | ⟨i, h⟩ | ⟨faults, h⟩
  · cases hbroken : (writeAll w state output.documents).broken <;>
      simp [generate, Output.build, Input.raw, h, Except.bind, GenerationResult.ofWriting?, hbroken]
  · simp [generate, Output.build, Input.raw, h, Except.bind]
  · simp [generate, Output.build, Input.raw, h, Except.bind]

/-- A document that is not stored is reported. -/
theorem generate_of_failure {output : Output} (h : Output.ofRaw settings raw = .ok output)
    {w : Writer σ} {state : σ} {d : Document} {reason : String}
    (hfailure : (writeAll w state output.documents).failure = some (d, reason)) :
    ∃ r, (generate ws settings (.given raw) (.write w) state).1 = .ok r ∧
      r.error = some (.outputUnwritable d.path.toString reason) := by
  refine ⟨.ofWriting output (writeAll w state output.documents), ?_, ?_⟩
  · simp [generate, Output.build, Input.raw, h, Except.bind, GenerationResult.ofWriting?,
      broken_eq_none_of_failure hfailure]
  · simp [GenerationResult.ofWriting, hfailure]

/-- An issue is reported by every run, and nothing is written. -/
theorem results_of_issue {i : Issue} (h : Output.ofRaw settings raw = .error (.issue i))
    (ws : Workspace) (delivery : Delivery σ) (state : σ) :
    inspect ws settings (.given raw) = .ok { error := some i } ∧
      verify ws settings (.given raw) = .ok { error := some i } ∧
      generate ws settings (.given raw) delivery state = (.ok { error := some i }, state) := by
  simp [inspect, verify, generate, Output.build, Input.raw, h, Except.bind]

theorem not_reachesUnlabelled {raws : List RawModel} (h : ∀ m ∈ raws, m.IsLabelled) :
    ¬ReachesUnlabelled raws := by
  rintro ⟨before, m, after, rfl, hlabelled, -⟩
  exact hlabelled (h m (by simp))

/-- The runs on a schema return results exactly if the batch does not come to a model that is not
labelled, the paths of the documents can be looked at, and the writer does not break off. An issue that ends a
run, and a document that is not stored, are the error of the result. -/
theorem returns_unless_unlabelled (ws : Workspace) (settings : Settings) (raw : RawSchema)
    (w : Writer σ) (state : σ) :
    ((∃ r, inspect ws settings (.given raw) = .ok r) ↔ ¬ReachesUnlabelled raw.models) ∧
    ((∃ v, verify ws settings (.given raw) = .ok v) ↔ ¬ReachesUnlabelled raw.models ∧
      ∀ output, Output.ofRaw settings raw = .ok output →
        ∀ d ∈ output.documents, ws.tree.lookFault? d.path = none) ∧
    ((∃ r, (generate ws settings (.given raw) .dryRun state).1 = .ok r) ↔
      ¬ReachesUnlabelled raw.models) ∧
    ((∃ r, (generate ws settings (.given raw) (.write w) state).1 = .ok r) ↔
      ¬ReachesUnlabelled raw.models ∧ ∀ output, Output.ofRaw settings raw = .ok output →
        (writeAll w state output.documents).broken = none) ∧
    (∀ i, Output.ofRaw settings raw = .error (.issue i) →
      inspect ws settings (.given raw) = .ok { error := some i } ∧
        verify ws settings (.given raw) = .ok { error := some i } ∧
        ∀ delivery, generate ws settings (.given raw) delivery state =
          (.ok { error := some i }, state)) ∧
    (∀ output d reason, Output.ofRaw settings raw = .ok output →
      (writeAll w state output.documents).failure = some (d, reason) →
        ∃ r, (generate ws settings (.given raw) (.write w) state).1 = .ok r ∧
          r.error = some (.outputUnwritable d.path.toString reason)) := by
  refine ⟨inspect_returns_iff ws settings raw, verify_returns_iff ws settings raw,
    dryRun_returns_iff ws settings raw state, generate_returns_iff ws settings raw w state,
    fun i hissue => ?_, fun output d reason hok hfailure => generate_of_failure hok hfailure⟩
  have hresults (delivery : Delivery σ) := results_of_issue hissue ws delivery state
  exact ⟨(hresults .dryRun).1, (hresults .dryRun).2.1, fun delivery => (hresults delivery).2.2⟩

/-- The runs on a schema with one named model return results. -/
theorem returns_unless_unlabelled_choice :
    (∃ r, inspect emptyWorkspace typesSettings (.given (choiceSchema "admin")) = .ok r) ∧
      ∃ r, (generate emptyWorkspace typesSettings (.given (choiceSchema "admin")) .dryRun
        emptyWorkspace.tree).1 = .ok r := by
  have hlabelled : ¬ReachesUnlabelled (choiceSchema "admin").models := by
    refine not_reachesUnlabelled fun m hm => ?_
    obtain rfl := List.mem_singleton.mp hm
    exact ⟨by decide, .mongoose, rfl⟩
  obtain ⟨hinspect, -, hgenerate, -⟩ := returns_unless_unlabelled emptyWorkspace typesSettings
    (choiceSchema "admin") Writer.toFiles emptyWorkspace.tree
  exact ⟨hinspect.mpr hlabelled, hgenerate.mpr hlabelled⟩

/-- A schema of one model without a name, such as a contract in a file that is only an extension
yields. -/
def unnamedSchema : RawSchema :=
  { models := [{ name := "", sourceKind := "mongoose"
                 fields := [{ name := some "a", scalar := some .string }] }] }

/-- Not every schema leads to results. -/
theorem unnamedSchema_returns_nothing :
    (inspect emptyWorkspace typesSettings (.given unnamedSchema)).toOption.isNone ∧
      (verify emptyWorkspace typesSettings (.given unnamedSchema)).toOption = none ∧
      (generateTypes unnamedSchema).1.toOption = none := by
  decide +kernel

end SchemaTypes
