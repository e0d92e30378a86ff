import Mathlib.Data.List.Induction
import SchemaTypes.Proofs.Model.Shapes

/-!
# Accounting for a batch

A batch takes its raw models one by one. A name that stood before ends the run, whatever the two models of
the name are. Otherwise each raw model becomes a model, or an issue with the path of the raw model if it
cannot be normalized, and which of the two it is does not depend on the raw models around it. So a batch
without a repeated name is made model by model: the models stand in the order of their raw models, the issues
in that of the others, and nothing else is in the result.

Results:
* `batchAfter_cons_new`, `batchAfter_cons_known`: one step, for a new name and for a known one.
* `batchAfter_of_nodup`, `batchAfter_of_repeated`: a run without a repeated name, and one up to the first.
* `exists_first_repeated`: where a list has the first name that stood before.
* `batch_accounted`: what becomes of a batch.
-/

namespace SchemaTypes

/-- The model that a raw model becomes, if it can be normalized. -/
def RawModel.model? (raw : RawModel) : Option Model :=
  (Model.ofRaw raw).toOption

/-- The issue about a raw model, if it is left out. -/
def RawModel.omission? (raw : RawModel) : Option Issue :=
  match Model.ofRaw raw with
  | .error (.issue i) => some (raw.complete i)
  | _ => none

variable {seen before after raws : List RawModel} {raw : RawModel}

/-! ## One raw model -/

/-- A raw model with a name and a known source is normalized or left out. -/
theorem Model.ofRaw_of_labelled (h : raw.IsLabelled) :
    (∃ m, Model.ofRaw raw = .ok m) ∨ ∃ i, Model.ofRaw raw = .error (.issue i) := by
  by_cases hfields : raw.FieldsNormalize
  · exact Or.inl (Model.ofRaw_labelled hfields h)
  · exact Or.inr (Model.ofRaw_of_not_fieldsNormalize hfields)

/-- An issue about a raw model tells the fault of a field. -/
theorem Model.ofRaw_issue {i : Issue} (h : Model.ofRaw raw = .error (.issue i)) :
    ∃ fault : FieldFault, i = fault.issue := by
  unfold Model.ofRaw at h
  split at h
  · rename_i fault _
    exact ⟨fault, (Problem.issue.inj (Except.error.inj h)).symm⟩
  · dsimp only at h
    split at h <;> cases h

theorem RawModel.account_of_ok {m : Model} (h : Model.ofRaw raw = .ok m) :
    raw.model? = some m ∧ raw.omission? = none := by
  rw [RawModel.model?, RawModel.omission?, h]
  exact ⟨rfl, rfl⟩

theorem RawModel.account_of_issue {i : Issue} (h : Model.ofRaw raw = .error (.issue i)) :
    raw.model? = none ∧ raw.omission? = some (raw.complete i) := by
  rw [RawModel.model?, RawModel.omission?, h]
  exact ⟨rfl, rfl⟩

/-! ## Steps -/

/-- A model with a new name adds what becomes of it, and the others do not notice. -/
theorem Model.batchAfter_cons_new (hnew : raw.name ∉ seen.map (·.name)) (h : raw.IsLabelled) :
    Model.batchAfter seen (raw :: raws) =
      (Model.batchAfter (seen ++ [raw]) raws).map fun out =>
        (raw.model?.toList ++ out.1, raw.omission?.toList ++ out.2) := by
  have hsame := same_isEmpty_iff.mpr hnew
  rw [batchAfter]
  dsimp only
  rw [if_pos hsame]
  rcases Model.ofRaw_of_labelled h with ⟨m, hm⟩ | ⟨i, hi⟩
  · obtain ⟨hmodel, hissue⟩ := RawModel.account_of_ok hm
    rw [hm, hmodel, hissue]
    cases Model.batchAfter (seen ++ [raw]) raws <;> rfl
  · obtain ⟨hmodel, hissue⟩ := RawModel.account_of_issue hi
    rw [hi, hmodel, hissue]
    cases Model.batchAfter (seen ++ [raw]) raws <;> rfl

/-- A name that is known ends the batch, whatever the raw model is. -/
theorem Model.batchAfter_cons_known (hknown : raw.name ∈ seen.map (·.name)) :
    Model.batchAfter seen (raw :: raws) = .error (.issue (.duplicateModel raw.name
      (((seen.filter fun other => other.name == raw.name) ++ [raw]).map (·.sourcePath)))) := by
  have hsame := mt same_isEmpty_iff.mp (not_not_intro hknown)
  rw [batchAfter]
  dsimp only
  rw [if_neg hsame]

/-! ## Runs -/

theorem name_new_of_nodup (h : ((seen ++ raw :: raws).map (·.name)).Nodup) :
    raw.name ∉ seen.map (·.name) := by
  rw [List.map_append, List.nodup_append] at h
  exact fun hmem => h.2.2 _ hmem _ (by simp) rfl

/-- Without a repeated name, each raw model adds what becomes of it. -/
theorem Model.batchAfter_of_nodup (h : ∀ raw ∈ raws, raw.IsLabelled)
    (hnames : ((seen ++ raws).map (·.name)).Nodup) :
    Model.batchAfter seen raws =
      .ok (raws.filterMap RawModel.model?, raws.filterMap RawModel.omission?) := by
  induction raws generalizing seen with
  | nil => rfl
  | cons raw raws ih =>
    rw [List.forall_mem_cons] at h
    have hnew := name_new_of_nodup hnames
    have hrest : (((seen ++ [raw]) ++ raws).map (·.name)).Nodup := by simpa using hnames
    rw [Model.batchAfter_cons_new hnew h.1, ih h.2 hrest]
    show Except.ok _ = _
    cases hmodel : raw.model? <;> cases hissue : raw.omission? <;> simp [hmodel, hissue]

/-- Up to the first name that stood before, nothing ends the batch, and there the name does. -/
theorem Model.batchAfter_of_repeated (h : ∀ raw ∈ before, raw.IsLabelled)
    (hnames : ((seen ++ before).map (·.name)).Nodup)
    (hknown : raw.name ∈ (seen ++ before).map (·.name)) :
    Model.batchAfter seen (before ++ raw :: after) = .error (.issue (.duplicateModel raw.name
      ((((seen ++ before).filter fun other => other.name == raw.name) ++ [raw]).map
        (·.sourcePath)))) := by
  induction before generalizing seen with
  | nil =>
    rw [List.append_nil] at hknown ⊢
    exact Model.batchAfter_cons_known hknown
  | cons first before ih =>
    rw [List.forall_mem_cons] at h
    have hnew := name_new_of_nodup hnames
    have hmore : (seen ++ [first]) ++ before = seen ++ first :: before := by simp
    rw [← hmore] at hnames hknown ⊢
    rw [List.cons_append, Model.batchAfter_cons_new hnew h.1, ih h.2 hnames hknown]
    rfl

/-- Where a list comes to a name for the second time for the first time. -/
theorem exists_first_repeated (h : ¬(raws.map (·.name)).Nodup) :
    ∃ before raw after, raws = before ++ raw :: after ∧ (before.map (·.name)).Nodup ∧
      raw.name ∈ before.map (·.name) := by
  induction raws using List.reverseRecOn with
  | nil => simp at h
  | append_singleton raws raw ih =>
    by_cases hnames : (raws.map (·.name)).Nodup
    · refine ⟨raws, raw, [], rfl, hnames, ?_⟩
      by_contra hnew
      exact h (names_concat_nodup hnames hnew)
    · obtain ⟨before, again, after, rfl, hbefore, hagain⟩ := ih hnames
      exact ⟨before, again, after ++ [raw], by simp, hbefore, hagain⟩

/-! ## Batches -/

/-- Each raw model that becomes no model has its issue, in order. -/
theorem omissions_accounted (h : ∀ raw ∈ raws, raw.IsLabelled) :
    List.Forall₂ (fun raw i => ∃ fault : FieldFault,
      Model.ofRaw raw = .error (.issue fault.issue) ∧ i = raw.complete fault.issue)
      (raws.filter fun raw => raw.model?.isNone) (raws.filterMap RawModel.omission?) := by
  induction raws with
  | nil => exact .nil
  | cons raw raws ih =>
    rw [List.forall_mem_cons] at h
    rcases Model.ofRaw_of_labelled h.1 with ⟨m, hm⟩ | ⟨i, hi⟩
    · obtain ⟨hmodel, hissue⟩ := RawModel.account_of_ok hm
      rw [List.filter_cons_of_neg (by simp [hmodel]), List.filterMap_cons_none hissue]
      exact ih h.2
    · obtain ⟨fault, rfl⟩ := Model.ofRaw_issue hi
      obtain ⟨hmodel, hissue⟩ := RawModel.account_of_issue hi
      rw [List.filter_cons_of_pos (by simp [hmodel]), List.filterMap_cons_some hissue]
      exact .cons ⟨fault, hi, rfl⟩ (ih h.2)

/-- What becomes of a batch of raw models with names and known sources. It fails exactly if two of them share a
name, and then with an issue about the first name that stood before. Otherwise its models are those of the raw
models that can be normalized, in order and with different names, and each of the others has one issue, in
order, with its path. -/
theorem batch_accounted (h : ∀ raw ∈ raws, raw.IsLabelled) :
    ((∃ problem, Model.batch raws = .error problem) ↔ ¬(raws.map (·.name)).Nodup) ∧
    (∀ problem, Model.batch raws = .error problem → ∃ before raw after, ∃ first ∈ before,
      raws = before ++ raw :: after ∧ (before.map (·.name)).Nodup ∧ first.name = raw.name ∧
      problem = .issue (.duplicateModel raw.name [first.sourcePath, raw.sourcePath])) ∧
    ((raws.map (·.name)).Nodup → ∃ issues,
      Model.batch raws = .ok (raws.filterMap RawModel.model?, issues) ∧
      ((raws.filterMap RawModel.model?).map (·.name)).Nodup ∧
      List.Forall₂ (fun raw i => i.code = .malformedField ∧ i.path = raw.sourcePath ∧
        ∃ fault : FieldFault, Model.ofRaw raw = .error (.issue fault.issue) ∧
          i = raw.complete fault.issue)
        (raws.filter fun raw => raw.model?.isNone) issues) := by
  have hdistinct (hnames : (raws.map (·.name)).Nodup) : Model.batch raws =
      .ok (raws.filterMap RawModel.model?, raws.filterMap RawModel.omission?) :=
    Model.batchAfter_of_nodup h (by simpa using hnames)
  have hrepeated (hnames : ¬(raws.map (·.name)).Nodup) : ∃ before raw after, ∃ first ∈ before,
      raws = before ++ raw :: after ∧ (before.map (·.name)).Nodup ∧ first.name = raw.name ∧
      Model.batch raws =
        .error (.issue (.duplicateModel raw.name [first.sourcePath, raw.sourcePath])) := by
    obtain ⟨before, raw, after, rfl, hbefore, hraw⟩ := exists_first_repeated hnames
    obtain ⟨first, hfirst, hname⟩ := List.mem_map.mp hraw
    refine ⟨before, raw, after, first, hfirst, rfl, hbefore, hname, ?_⟩
    have hlabelled : ∀ raw ∈ before, raw.IsLabelled := fun raw hraw => h raw (by simp [hraw])
    rw [Model.batch, Model.batchAfter_of_repeated hlabelled (by simpa using hbefore)
      (by simpa using hraw), List.nil_append, ← hname, filter_key_of_mem hbefore hfirst]
    rfl
  refine ⟨⟨?_, fun hnames => ?_⟩, fun problem hproblem => ?_, fun hnames => ?_⟩
  · rintro ⟨problem, hproblem⟩ hnames
    rw [hdistinct hnames] at hproblem
    cases hproblem
  · obtain ⟨_, _, _, _, -, -, -, -, hbatch⟩ := hrepeated hnames
    exact ⟨_, hbatch⟩
  · by_cases hnames : (raws.map (·.name)).Nodup
    · rw [hdistinct hnames] at hproblem
      cases hproblem
    · obtain ⟨before, raw, after, first, hfirst, hsplit, hbefore, hname, hbatch⟩ := hrepeated hnames
      rw [hbatch] at hproblem
      exact ⟨before, raw, after, first, hfirst, hsplit, hbefore, hname, (Except.error.inj hproblem).symm⟩
  · have hbatch := hdistinct hnames
    refine ⟨_, hbatch, Model.names_batch_nodup hbatch, (omissions_accounted h).imp ?_⟩
    rintro raw i ⟨fault, hfault, rfl⟩
    exact ⟨rfl, rfl, fault, hfault, rfl⟩

/-- A raw model with one field, which has a shape if a kind is given. -/
def rawRecord (name path : String) (kind : Option ScalarKind) : RawModel :=
  { name, sourceKind := "prisma", sourcePath := some path
    fields := [{ name := some "id", scalar := kind }] }

/-- Raw models of which the second has a field without shape. -/
def partialBatch : List RawModel :=
  [rawRecord "User" "a.prisma" (some .number), rawRecord "Post" "b.prisma" none,
    rawRecord "Tag" "c.prisma" (some .string)]

/-- The same, and one more of the name that was left out. -/
def clashingBatch : List RawModel :=
  partialBatch ++ [rawRecord "Post" "d.prisma" none]

theorem batch_accounted_samples :
    (∀ raw ∈ partialBatch, raw.IsLabelled) ∧ (partialBatch.map (·.name)).Nodup ∧
    (∃ models issues, Model.batch partialBatch = .ok (models, issues) ∧
      models.map (·.name) = ["User", "Tag"] ∧
      issues.map (fun i => (i.code, i.path)) = [(.malformedField, some "b.prisma")]) ∧
    (∀ raw ∈ clashingBatch, raw.IsLabelled) ∧
    ∃ problem, Model.batch clashingBatch = .error problem := by
  have hlabelled (name path : String) (kind : Option ScalarKind) (hname : name ≠ "") :
      (rawRecord name path kind).IsLabelled := ⟨hname, .prisma, rfl⟩
  have hpartial : ∀ raw ∈ partialBatch, raw.IsLabelled := by
    simp only [partialBatch, List.forall_mem_cons]
    exact ⟨hlabelled _ _ _ (by decide), hlabelled _ _ _ (by decide), hlabelled _ _ _ (by decide),
      by simp⟩
  have hclashing : ∀ raw ∈ clashingBatch, raw.IsLabelled := by
    rw [clashingBatch, List.forall_mem_append, List.forall_mem_singleton]
    exact ⟨hpartial, hlabelled _ _ _ (by decide)⟩
  obtain ⟨-, -, hmade⟩ := batch_accounted hpartial
  obtain ⟨hfails, -, -⟩ := batch_accounted hclashing
  have hdistinct : (partialBatch.map (·.name)).Nodup := by decide
  refine ⟨hpartial, hdistinct, ?_, hclashing, hfails.mpr (by decide)⟩
  obtain ⟨issues, hbatch, -, hissues⟩ := hmade hdistinct
  have hleft : partialBatch.filter (fun raw => raw.model?.isNone) =
      [rawRecord "Post" "b.prisma" none] := rfl
  rw [hleft] at hissues
  obtain ⟨i, rest, ⟨hcode, hpath, -⟩, hrest, rfl⟩ := List.forall₂_cons_left_iff.mp hissues
  obtain rfl := List.forall₂_nil_left_iff.mp hrest
  refine ⟨_, _, hbatch, rfl, ?_⟩
  rw [List.map_singleton, hcode, hpath]
  rfl

end SchemaTypes
