import SchemaTypes.Model.Normalization

/-!
# Batches that end a run

A model of a batch is normalized, left out with an issue, or ends the run. Two things end a run: a name
that was there before, for which there is an issue, and a model that is not labelled: it has no name, or
its source is of no known kind. The fields of the latter have to be in order, since they are looked at
first; and no name may have been repeated up to there.

Results:
* `ofRaw_labelled`, `ofRaw_unlabelled`: what becomes of one model whose fields are in order.
* `batchAfter_cons`: a model that is normalized or left out leaves the end of the run to the others.
* `batchAfter_invalid_iff`, `batch_invalid_iff`: the batches that end a run without an issue.
-/

namespace SchemaTypes

/-- Whether the fields of a raw model can be normalized. -/
def RawModel.FieldsNormalize (raw : RawModel) : Prop :=
  ∃ fields, (normalizeEach raw.name raw.fields).bind (siblings raw.name) = .ok fields

/-- Whether a raw model has a name and a source of a known kind. -/
def RawModel.IsLabelled (raw : RawModel) : Prop :=
  raw.name ≠ "" ∧ ∃ kind : SourceKind, raw.sourceKind = kind.text

/-- Whether a batch that follows the models `seen` comes to a model that is not labelled, but has fields
that can be normalized, before it comes to a name for the second time. -/
def ReachesUnlabelledAfter (seen raws : List RawModel) : Prop :=
  ∃ before raw after, raws = before ++ raw :: after ∧ ¬raw.IsLabelled ∧ raw.FieldsNormalize ∧
    ((seen ++ before ++ [raw]).map (·.name)).Nodup

/-- Whether a batch comes to such a model. -/
def ReachesUnlabelled (raws : List RawModel) : Prop :=
  ReachesUnlabelledAfter [] raws

/-! ## One model -/

theorem Model.ofRaw_of_not_fieldsNormalize {raw : RawModel} (h : ¬raw.FieldsNormalize) :
    ∃ i, Model.ofRaw raw = .error (.issue i) := by
  unfold Model.ofRaw
  split
  · exact ⟨_, rfl⟩
  · exact absurd ⟨_, ‹_›⟩ h

theorem Check.literal_sourceKind_iff {text : String} {kind : SourceKind} :
    Check.literal SourceKind.choices (.str text) = .ok kind ↔ text = kind.text := by
  constructor
  · intro h
    have hlookup : SourceKind.choices.lookup text = some kind := by
      simp only [literal, Json.str?, Option.bind_some] at h
      split at h
      · rename_i found hfound
        rw [hfound, Checked.ok.inj h]
      · simp [Checked.fault] at h
    obtain ⟨before, after, hchoices, -⟩ := List.lookup_eq_some_iff.mp hlookup
    have hmem : (text, kind) ∈ SourceKind.choices := by simp [hchoices]
    simp only [SourceKind.choices, List.mem_cons, Prod.mk.injEq, List.not_mem_nil, or_false] at hmem
    rcases hmem with ⟨rfl, rfl⟩ | ⟨rfl, rfl⟩ <;> rfl
  · rintro rfl
    cases kind <;> rfl

theorem Model.ofRaw_labelled {raw : RawModel} (hfields : raw.FieldsNormalize)
    (h : raw.IsLabelled) : ∃ model, Model.ofRaw raw = .ok model := by
  obtain ⟨fields, hfields⟩ := hfields
  obtain ⟨hname, kind, hkind⟩ := h
  unfold Model.ofRaw
  rw [hfields, Check.literal_sourceKind_iff.mpr hkind]
  simp only [Checked.nonempty, beq_iff_eq, if_neg hname]
  exact ⟨_, rfl⟩

theorem Model.ofRaw_unlabelled {raw : RawModel} (hfields : raw.FieldsNormalize)
    (h : ¬raw.IsLabelled) : ∃ faults, Model.ofRaw raw = .error (.invalid faults) := by
  obtain ⟨fields, hfields⟩ := hfields
  unfold Model.ofRaw
  rw [hfields]
  cases hkind : Check.literal SourceKind.choices (.str raw.sourceKind) with
  | faulty faults => cases Checked.nonempty raw.name <;> exact ⟨_, rfl⟩
  | ok kind =>
    have hname : raw.name = "" := Classical.byContradiction fun hname =>
      h ⟨hname, kind, Check.literal_sourceKind_iff.mp hkind⟩
    simp only [hname, Checked.nonempty]
    exact ⟨_, rfl⟩

/-- What becomes of one model, wherever it stands. -/
theorem Model.ofRaw_cases (raw : RawModel) : (∃ model, Model.ofRaw raw = .ok model) ∨
    (∃ i, Model.ofRaw raw = .error (.issue i)) ∨
      ∃ faults, Model.ofRaw raw = .error (.invalid faults) := by
  unfold Model.ofRaw
  split
  · exact Or.inr (Or.inl ⟨_, rfl⟩)
  · dsimp only
    split
    · exact Or.inl ⟨_, rfl⟩
    · exact Or.inr (Or.inr ⟨_, rfl⟩)

/-! ## Batches -/

section Batch

variable {seen raws : List RawModel} {raw : RawModel}

theorem same_isEmpty_iff :
    (seen.filter fun other => other.name == raw.name).isEmpty = true ↔
      raw.name ∉ seen.map (·.name) := by
  simp [List.isEmpty_iff, List.filter_eq_nil_iff]

/-- A name that was there before ends the run with an issue. -/
theorem Model.batchAfter_cons_repeated (h : raw.name ∈ seen.map (·.name)) (raws : List RawModel) :
    ∃ i, Model.batchAfter seen (raw :: raws) = .error (.issue i) := by
  have hsame := mt same_isEmpty_iff.mp (not_not_intro h)
  simp only [batchAfter, hsame]
  exact ⟨_, rfl⟩

/-- A model that is normalized or left out leaves the end of the run to the others. -/
theorem Model.batchAfter_cons (hnew : raw.name ∉ seen.map (·.name))
    (h : (∃ model, Model.ofRaw raw = .ok model) ∨ ∃ i, Model.ofRaw raw = .error (.issue i))
    (problem : Problem) : Model.batchAfter seen (raw :: raws) = .error problem ↔
      Model.batchAfter (seen ++ [raw]) raws = .error problem := by
  have hsame := same_isEmpty_iff.mpr hnew
  rcases h with ⟨model, h⟩ | ⟨i, h⟩ <;>
    cases hrest : Model.batchAfter (seen ++ [raw]) raws <;>
    simp [batchAfter, hsame, h, hrest, bind, Except.bind, pure, Except.pure]

theorem Model.batchAfter_cons_invalid (hnew : raw.name ∉ seen.map (·.name)) {faults : List Fault}
    (h : Model.ofRaw raw = .error (.invalid faults)) :
    Model.batchAfter seen (raw :: raws) = .error (.invalid faults) := by
  simp [batchAfter, same_isEmpty_iff.mpr hnew, h]

/-- What can end a run. -/
theorem Model.batchAfter_error_cases {problem : Problem}
    (h : Model.batchAfter seen raws = .error problem) :
    (∃ i, problem = .issue i) ∨ ∃ faults, problem = .invalid faults := by
  induction raws generalizing seen with
  | nil => simp [batchAfter] at h
  | cons raw raws ih =>
    by_cases hnew : raw.name ∈ seen.map (·.name)
    · obtain ⟨i, hrepeated⟩ := Model.batchAfter_cons_repeated hnew raws
      rw [hrepeated] at h
      exact Or.inl ⟨i, (Except.error.inj h).symm⟩
    · rcases Model.ofRaw_cases raw with hok | hissue | ⟨faults, hinvalid⟩
      · exact ih ((Model.batchAfter_cons hnew (Or.inl hok) problem).mp h)
      · exact ih ((Model.batchAfter_cons hnew (Or.inr hissue) problem).mp h)
      · rw [Model.batchAfter_cons_invalid hnew hinvalid] at h
        exact Or.inr ⟨faults, (Except.error.inj h).symm⟩

theorem names_concat_nodup (hseen : (seen.map (·.name)).Nodup)
    (hnew : raw.name ∉ seen.map (·.name)) : ((seen ++ [raw]).map (·.name)).Nodup := by
  rw [List.map_append, List.nodup_append]
  refine ⟨hseen, by simp, fun name hname other hother => ?_⟩
  rintro rfl
  simp only [List.map_cons, List.map_nil, List.mem_singleton] at hother
  exact hnew (hother ▸ hname)

theorem reachesUnlabelledAfter_nil : ¬ReachesUnlabelledAfter seen [] := by
  rintro ⟨before, raw, after, h, -⟩
  simp at h

theorem not_reachesUnlabelledAfter_cons (h : raw.name ∈ seen.map (·.name)) :
    ¬ReachesUnlabelledAfter seen (raw :: raws) := by
  rintro ⟨before, unlabelled, after, hsplit, -, -, hnodup⟩
  have hrepeated : ¬((seen ++ [raw]).map (·.name)).Nodup := by
    rw [List.map_append, List.nodup_append]
    exact fun hdisjoint => hdisjoint.2.2 _ h _ (by simp) rfl
  refine hrepeated (hnodup.sublist (List.Sublist.map _ ?_))
  cases before with
  | nil =>
    obtain ⟨rfl, -⟩ := List.cons.inj hsplit
    simp
  | cons first before =>
    obtain ⟨rfl, -⟩ := List.cons.inj hsplit
    simp

/-- A model that does not end the run itself is one of those before. -/
theorem reachesUnlabelledAfter_cons (h : ¬(¬raw.IsLabelled ∧ raw.FieldsNormalize)) :
    ReachesUnlabelledAfter seen (raw :: raws) ↔ ReachesUnlabelledAfter (seen ++ [raw]) raws := by
  constructor
  · rintro ⟨before, unlabelled, after, hsplit, hlabelled, hfields, hnodup⟩
    cases before with
    | nil =>
      obtain ⟨rfl, -⟩ := List.cons.inj hsplit
      exact absurd ⟨hlabelled, hfields⟩ h
    | cons first before =>
      obtain ⟨rfl, hrest⟩ := List.cons.inj hsplit
      exact ⟨before, unlabelled, after, hrest, hlabelled, hfields, by simpa using hnodup⟩
  · rintro ⟨before, unlabelled, after, rfl, hlabelled, hfields, hnodup⟩
    exact ⟨raw :: before, unlabelled, after, rfl, hlabelled, hfields, by simpa using hnodup⟩

theorem reachesUnlabelledAfter_self (hseen : (seen.map (·.name)).Nodup)
    (hnew : raw.name ∉ seen.map (·.name)) (h : ¬raw.IsLabelled ∧ raw.FieldsNormalize) :
    ReachesUnlabelledAfter seen (raw :: raws) := by
  refine ⟨[], raw, raws, rfl, h.1, h.2, ?_⟩
  rw [List.append_nil]
  exact names_concat_nodup hseen hnew

theorem batchAfter_invalid_iff (hseen : (seen.map (·.name)).Nodup) :
    (∃ faults, Model.batchAfter seen raws = .error (.invalid faults)) ↔
      ReachesUnlabelledAfter seen raws := by
  induction raws generalizing seen with
  | nil => simp [Model.batchAfter, reachesUnlabelledAfter_nil]
  | cons raw raws ih =>
    by_cases hnew : raw.name ∈ seen.map (·.name)
    · obtain ⟨i, hrepeated⟩ := Model.batchAfter_cons_repeated hnew raws
      simp [hrepeated, not_reachesUnlabelledAfter_cons hnew]
    by_cases hends : ¬raw.IsLabelled ∧ raw.FieldsNormalize
    · obtain ⟨faults, hinvalid⟩ := Model.ofRaw_unlabelled hends.2 hends.1
      exact iff_of_true ⟨faults, Model.batchAfter_cons_invalid hnew hinvalid⟩
        (reachesUnlabelledAfter_self hseen hnew hends)
    · have hgoes : (∃ model, Model.ofRaw raw = .ok model) ∨
          ∃ i, Model.ofRaw raw = .error (.issue i) := by
        by_cases hfields : raw.FieldsNormalize
        · exact Or.inl (Model.ofRaw_labelled hfields
            (Classical.byContradiction fun hlabelled => hends ⟨hlabelled, hfields⟩))
        · exact Or.inr (Model.ofRaw_of_not_fieldsNormalize hfields)
      simp only [Model.batchAfter_cons hnew hgoes, reachesUnlabelledAfter_cons hends]
      exact ih (names_concat_nodup hseen hnew)

/-- The batches that end a run without an issue. -/
theorem batch_invalid_iff :
    (∃ faults, Model.batch raws = .error (.invalid faults)) ↔ ReachesUnlabelled raws :=
  batchAfter_invalid_iff (by simp)

end Batch

end SchemaTypes
