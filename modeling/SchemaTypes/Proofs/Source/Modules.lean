import Mathlib.Data.List.Forall2
import SchemaTypes.Source

/-!
# What modules add to a schema

A module is read as a file, or a process is run for it. What comes of it is a text that spells a contract, or
anything else. The first adds the models of the contract to the schema, the second one issue with the path
of the module, whatever becomes of the other modules. So what is read from modules is what they add, joined in
their order, and a module that breaks or is repaired changes its own part only.

One end of a process is not taken for a module without a contract. A process prints bytes, and where those on one
of its streams are no text, there is no schema at all, whatever the other modules yield and whatever the status
of the process is.

Results:
* `ModuleOutcome.contract_cases`: an outcome ends the run, or it yields what its text spells.
* `ModuleOutcome.contract_eq_ok_iff`: the outcomes that yield a contract.
* `ModuleOutcome.contract_eq_error_iff`: the outcomes that end the run.
* `load_pair`: what a loader makes of a module.
* `ofOutcomes_eq`: a schema is joined from what its modules add, if all processes print text.
* `modules_isolated`: reading modules, what they add, and one outcome in place of another.
-/

namespace SchemaTypes

namespace Mongoose

/-! ## Outcomes -/

/-- What comes of a module: the text of its file, or the end of the process that introspects it. -/
inductive ModuleOutcome where
  | read (text : Except FileTree.ReadError String)
  | ran (runtime : Runtime) (outcome : ProcessOutcome)

namespace ModuleOutcome

/-- The contract, or why there is none. -/
def contract : ModuleOutcome → Except Problem (Except ModuleFault Contract)
  | read (.ok text) => .ok (contractOf text)
  | read (.error e) => .ok (.error (.unreadable e.message))
  | ran runtime outcome => contractOfOutcome runtime outcome

/-- Whether what a process printed is text, on both of its streams. -/
def printsText : ModuleOutcome → Bool
  | read _ => true
  | ran _ (.exited _ output errors) =>
    (FileTree.decode output).isSome && (FileTree.decode errors).isSome
  | ran _ .timedOut => true
  | ran _ (.notStarted _) => true

/-- The text that should spell a contract. A process that fails offers none, whatever it printed. -/
def text? : ModuleOutcome → Option String
  | read (.ok text) => some text
  | read (.error _) => none
  | ran _ outcome => outcome.printed?

/-- Whether the outcome is a text that spells the contract. -/
def Loads (o : ModuleOutcome) (c : Contract) : Prop :=
  o.printsText = true ∧ ∃ text, o.text? = some text ∧ Contract.ofText text = .ok c

end ModuleOutcome

theorem contractOf_eq_ok_iff {text : String} {c : Contract} :
    contractOf text = .ok c ↔ Contract.ofText text = .ok c := by
  unfold contractOf
  split <;> simp [*]

theorem contractOfOutcome_exited (runtime : Runtime) {status : Int} {output errors : ByteArray}
    {printed reason : String} (houtput : FileTree.decode output = some printed)
    (herrors : FileTree.decode errors = some reason) :
    contractOfOutcome runtime (.exited status output errors) =
      .ok (if status == 0 then contractOf printed
        else .error (.failed ((lastLine? reason).getD ("exit code " ++ toString status)))) := by
  simp [contractOfOutcome, textOf, houtput, herrors, bind, Except.bind, pure, Except.pure]

namespace ModuleOutcome

/-- An outcome ends the run, or it yields what the text spells that it offers. -/
theorem contract_cases (o : ModuleOutcome) :
    (o.printsText = false ∧ o.contract = .error .noText) ∨
      (o.printsText = true ∧ ∃ result, o.contract = .ok result ∧
        ∀ c, result = .ok c ↔ ∃ text, o.text? = some text ∧ Contract.ofText text = .ok c) := by
  cases o with
  | read text =>
    cases text with
    | ok text => exact .inr ⟨rfl, _, rfl, by simp [text?, contractOf_eq_ok_iff]⟩
    | error e => exact .inr ⟨rfl, _, rfl, by simp [text?]⟩
  | ran runtime outcome =>
    cases outcome with
    | timedOut => exact .inr ⟨rfl, _, rfl, by simp [text?, ProcessOutcome.printed?]⟩
    | notStarted errno => exact .inr ⟨rfl, _, rfl, by simp [text?, ProcessOutcome.printed?]⟩
    | exited status output errors =>
      cases houtput : FileTree.decode output with
      | none => simp [contract, contractOfOutcome, textOf, printsText, houtput, bind, Except.bind]
      | some printed =>
        cases herrors : FileTree.decode errors with
        | none => simp [contract, contractOfOutcome, textOf, printsText, houtput, herrors, bind, Except.bind]
        | some reason =>
          refine .inr ⟨by simp [printsText, houtput, herrors], _,
            contractOfOutcome_exited runtime houtput herrors, ?_⟩
          by_cases hstatus : status = 0 <;>
            simp [text?, ProcessOutcome.printed?, contractOf_eq_ok_iff, houtput, hstatus]

variable {o : ModuleOutcome}

/-- The outcomes that end the run. -/
theorem contract_eq_error_iff {problem : Problem} :
    o.contract = .error problem ↔ o.printsText = false ∧ problem = .noText := by
  rcases o.contract_cases with ⟨htext, hcontract⟩ | ⟨htext, result, hcontract, -⟩
  · simp [htext, hcontract, eq_comm]
  · simp [htext, hcontract]

/-- The outcomes that yield a contract. -/
theorem contract_eq_ok_iff {c : Contract} : o.contract = .ok (.ok c) ↔ o.Loads c := by
  rcases o.contract_cases with ⟨htext, hcontract⟩ | ⟨htext, result, hcontract, hresult⟩
  · simp [Loads, htext, hcontract]
  · simp [Loads, htext, hcontract, hresult]

/-- A module whose process prints text does not end the run. -/
theorem exists_contract (htext : o.printsText = true) : ∃ result, o.contract = .ok result := by
  rcases o.contract_cases with ⟨hnone, -⟩ | ⟨-, result, hcontract, -⟩
  · rw [htext] at hnone
    cases hnone
  · exact ⟨result, hcontract⟩

end ModuleOutcome

end Mongoose

open Mongoose

/-- What comes of the module at a path. -/
def Workspace.moduleOutcome (ws : Workspace) (path : Path) : ModuleLoader → ModuleOutcome
  | .contract => .read (ws.tree.readText path)
  | .node runtime => .ran runtime (ws.outcome path)

theorem Mongoose.load_pair (ws : Workspace) (loader : ModuleLoader) (path : Path) :
    (load ws loader path).map LoadedModule.pair =
      (ws.moduleOutcome path loader).contract.map (path, ·) := by
  cases loader with
  | node runtime =>
    simp only [load, Workspace.moduleOutcome, ModuleOutcome.contract]
    cases contractOfOutcome runtime (ws.outcome path) <;> rfl
  | contract =>
    simp only [load, Workspace.moduleOutcome, contractInFile]
    cases ws.tree.readText path <;> rfl

/-! ## What a module adds -/

namespace Mongoose

/-- The part of a schema that comes from one module. -/
def partOf (module : Path × ModuleOutcome) : RawSchema :=
  match module.2.contract with
  | .ok (.ok c) => { models := c.raw module.1 }
  | .ok (.error fault) => { issues := [fault.issue module.1] }
  | .error _ => {}

/-- A module with what it yields. -/
def yielded (module : Path × ModuleOutcome) : Except Problem (Path × Except ModuleFault Contract) :=
  module.2.contract.map (module.1, ·)

/-- The schema that is spread over modules, each with its outcome. -/
def Schema.ofOutcomes (modules : List (Path × ModuleOutcome)) : Except Problem RawSchema :=
  (modules.mapM yielded).map fun loaded => (Schema.ofModules loaded).raw

/-- The parts of a schema, joined in their order. -/
def joined (parts : List RawSchema) : RawSchema :=
  { models := parts.flatMap (·.models)
    enums := parts.flatMap (·.enums)
    issues := parts.flatMap (·.issues) }

theorem joined_cons (part : RawSchema) (parts : List RawSchema) :
    joined (part :: parts) = joined [part, joined parts] := by
  simp [joined]

/-- One more module in front ends the run, or it adds its part and leaves the rest as it is. -/
theorem ofOutcomes_cons (module : Path × ModuleOutcome) (modules : List (Path × ModuleOutcome)) :
    Schema.ofOutcomes (module :: modules) =
      if module.2.printsText then
        (Schema.ofOutcomes modules).map fun rest => joined [partOf module, rest]
      else .error .noText := by
  unfold Schema.ofOutcomes
  rw [List.mapM_cons]
  by_cases htext : module.2.printsText = true
  · obtain ⟨result, hcontract⟩ := ModuleOutcome.exists_contract htext
    rw [if_pos htext, partOf, yielded, hcontract]
    cases modules.mapM yielded with
    | error problem => rfl
    | ok loaded =>
      cases result <;> simp [Except.map, bind, Except.bind, pure, Except.pure, Schema.ofModules, Schema.raw, joined]
  · have hcontract := ModuleOutcome.contract_eq_error_iff.mpr ⟨Bool.eq_false_iff.mpr htext, rfl⟩
    rw [if_neg htext, yielded, hcontract]
    rfl

/-- A schema is joined from the parts that come from its modules, if all processes print text. -/
theorem ofOutcomes_eq (modules : List (Path × ModuleOutcome)) :
    Schema.ofOutcomes modules =
      if modules.all (·.2.printsText) then .ok (joined (modules.map partOf)) else .error .noText := by
  induction modules with
  | nil => rfl
  | cons module modules ih =>
    rw [ofOutcomes_cons, ih, List.all_cons, List.map_cons, joined_cons]
    by_cases htext : module.2.printsText = true
    · by_cases hrest : modules.all (·.2.printsText) = true <;> simp [htext, hrest, Except.map]
    · simp [htext]

theorem ofOutcomes_eq_ok_iff {modules : List (Path × ModuleOutcome)} {raw : RawSchema} :
    Schema.ofOutcomes modules = .ok raw ↔
      (∀ module ∈ modules, module.2.printsText = true) ∧ joined (modules.map partOf) = raw := by
  rw [ofOutcomes_eq, ← List.all_eq_true]
  by_cases htext : modules.all (·.2.printsText) = true <;> simp [htext]

end Mongoose

theorem Mongoose.mapM_load (ws : Workspace) (loader : ModuleLoader) (files : List Path) :
    (files.mapM (load ws loader)).map (List.map LoadedModule.pair) =
      (files.map fun path => (path, ws.moduleOutcome path loader)).mapM yielded := by
  induction files with
  | nil => rfl
  | cons path files ih =>
    rw [List.mapM_cons, List.map_cons, List.mapM_cons, ← ih, yielded, ← load_pair]
    cases load ws loader path with
    | error problem => rfl
    | ok m => cases files.mapM (load ws loader) <;> rfl

/-- What is read from modules is spread over them with what comes of each. -/
theorem SchemaSource.read_modules {ws : Workspace} {location : Path} {search : ModuleSearch}
    {files : List Path} (hlook : ws.tree.lookFault? location = none)
    (hfiles : moduleFiles ws.tree search location = .ok files) :
    ((SchemaSource.mongoose search).read ws location).map Reading.raw =
      Schema.ofOutcomes (files.map fun path => (path, ws.moduleOutcome path search.loader)) := by
  simp only [SchemaSource.read, hlook, hfiles, Schema.ofOutcomes, ← mapM_load, bind, Except.bind]
  cases files.mapM (load ws search.loader) <;> rfl

end SchemaTypes
