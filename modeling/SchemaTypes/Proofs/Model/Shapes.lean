import SchemaTypes.Proofs.Model.Naming

/-!
# Raw fields that can be normalized

A raw field can be normalized if it has a name and one shape, and the fields that it nests can be
normalized and have different names. The label of the owner takes part in messages only. So the fields of a
raw model can be normalized exactly if this holds of each raw field at every depth, and a source that gives
every field one shape leaves nothing to check but names.

Results:
* `exists_siblings_iff`, `exists_normalizeField_iff`: fields side by side, and one field.
* `normalizeField_induct`, `Model.ofRaw_induct`: what holds of normalized fields, from inside out.
* `mem_withNested`, `mem_allNested`: the raw fields at every depth.
* `normalizes_iff`, `fieldsNormalize_iff`: one raw field, and the fields of a raw model.
* `Model.ofRaw_ok_iff`: the raw models that can be normalized.
-/

namespace SchemaTypes

variable {owner : String} {raw : RawField} {raws : List RawField}

/-! ## Fields side by side -/

theorem firstRepeated?_eq_none_iff {seen names : List String} :
    firstRepeated? seen names = none ↔ names.Nodup ∧ ∀ name ∈ names, name ∉ seen := by
  induction names generalizing seen with
  | nil => simp [firstRepeated?]
  | cons name names ih =>
    by_cases hseen : name ∈ seen
    · simp [firstRepeated?, hseen]
    · simp only [firstRepeated?, List.contains_iff_mem, hseen, if_false, ih, List.nodup_cons,
        List.forall_mem_cons, List.mem_append, List.mem_singleton, not_or, not_false_eq_true,
        true_and]
      constructor
      · rintro ⟨hnodup, hnew⟩
        exact ⟨⟨fun hmem => (hnew name hmem).2 rfl, hnodup⟩, fun other hother => (hnew other hother).1⟩
      · rintro ⟨⟨hname, hnodup⟩, hnew⟩
        exact ⟨hnodup, fun other hother => ⟨hnew other hother, fun heq => hname (heq ▸ hother)⟩⟩

theorem siblings_ok_iff {fields kept : List Field} :
    siblings owner fields = .ok kept ↔ (fields.map (·.name)).Nodup ∧ kept = fields := by
  have hnone : firstRepeated? [] (fields.map (·.name)) = none ↔ (fields.map (·.name)).Nodup := by
    simp [firstRepeated?_eq_none_iff]
  rw [← hnone, siblings]
  cases firstRepeated? [] (fields.map (·.name)) <;> simp [eq_comm]

/-- A raw field whose name and shape can be told. -/
theorem usable_ok_iff {name : String} :
    raw.usable owner = .ok name ↔ raw.name = some name ∧ name ≠ "" ∧ raw.shapeCount = 1 := by
  unfold RawField.usable
  split
  · rename_i hname
    simp [hname]
  · rename_i hname
    simp only [hname, reduceCtorEq, Option.some.injEq, false_iff]
    rintro ⟨rfl, hne, -⟩
    exact hne rfl
  · rename_i other hother hname
    have hne : other ≠ "" := hother
    rcases Nat.lt_trichotomy raw.shapeCount 1 with hcount | hcount | hcount
    · have hzero : raw.shapeCount = 0 := by omega
      simp [hzero]
    · simp only [hname, hcount, Option.some.injEq]
      constructor
      · intro h
        obtain rfl := Except.ok.inj h
        exact ⟨rfl, hne, trivial⟩
      · rintro ⟨rfl, -, -⟩
        rfl
    · have hzero : raw.shapeCount ≠ 0 := by omega
      have hone : raw.shapeCount ≠ 1 := by omega
      simp [hzero, hone, hcount]

theorem exists_normalizeEach_iff : (∃ fields, normalizeEach owner raws = .ok fields) ↔
    ∀ raw ∈ raws, ∃ f, normalizeField owner raw = .ok f := by
  induction raws with
  | nil => simp [normalizeEach]
  | cons raw raws ih =>
    rw [List.forall_mem_cons, ← ih]
    simp only [normalizeEach, bind, bind_eq_ok_iff, pure, Except.pure, Except.ok.injEq]
    constructor
    · rintro ⟨_, f, hf, fields, hfields, -⟩
      exact ⟨⟨f, hf⟩, fields, hfields⟩
    · rintro ⟨⟨f, hf⟩, fields, hfields⟩
      exact ⟨_, f, hf, fields, hfields, rfl⟩

/-- The fields inside a raw field, normalized. -/
def RawField.normalizeNested (raw : RawField) (label : String) : Except FieldFault (List Field) :=
  match raw.nested with
  | some raws => (normalizeEach label raws).bind (siblings label)
  | none => .ok []

/-- The steps of normalizing a raw field. -/
theorem normalizeField_eq (owner : String) (raw : RawField) : normalizeField owner raw =
    (raw.usable owner).bind fun name => (raw.normalizeNested (fieldLabel owner name)).bind fun fields =>
      if raw.illTyped then .error (.illTyped (fieldLabel owner name))
      else .ok (Field.ofRaw raw name fields) := by
  obtain ⟨_, _, _, _, _, _, _, nested, _, _, _, _, _, illTyped⟩ := raw
  rw [normalizeField]
  cases nested <;> cases illTyped <;> rfl

theorem normalizeField_ok_iff {f : Field} : normalizeField owner raw = .ok f ↔
    ∃ name fields, raw.usable owner = .ok name ∧ raw.normalizeNested (fieldLabel owner name) = .ok fields ∧
      raw.illTyped = false ∧ f = Field.ofRaw raw name fields := by
  rw [normalizeField_eq, bind_eq_ok_iff]
  simp only [bind_eq_ok_iff]
  cases raw.illTyped <;> simp [eq_comm]

/-- Normalized fields have the names of the raw fields. -/
theorem names_normalizeEach {fields : List Field} (h : normalizeEach owner raws = .ok fields) :
    raws.map (·.name) = fields.map fun f => some f.name := by
  induction raws generalizing fields with
  | nil =>
    obtain rfl := Except.ok.inj h
    rfl
  | cons raw raws ih =>
    simp only [normalizeEach, bind, bind_eq_ok_iff, pure, Except.pure, Except.ok.injEq] at h
    obtain ⟨f, hf, later, hlater, rfl⟩ := h
    obtain ⟨name, inner, hname, -, -, rfl⟩ := normalizeField_ok_iff.mp hf
    rw [List.map_cons, List.map_cons, ih hlater, (usable_ok_iff.mp hname).1, Field.ofRaw_name]

theorem mem_normalizeEach {fields : List Field} (h : normalizeEach owner raws = .ok fields) {f : Field}
    (hf : f ∈ fields) : ∃ raw ∈ raws, normalizeField owner raw = .ok f := by
  induction raws generalizing fields with
  | nil =>
    simp only [normalizeEach, Except.ok.injEq] at h
    simp [← h] at hf
  | cons raw raws ih =>
    simp only [normalizeEach, bind, bind_eq_ok_iff, pure, Except.pure, Except.ok.injEq] at h
    obtain ⟨first, hfirst, others, hothers, rfl⟩ := h
    rcases List.mem_cons.mp hf with rfl | hf
    · exact ⟨raw, List.mem_cons_self, hfirst⟩
    · obtain ⟨raw', hraw', hf⟩ := ih hothers hf
      exact ⟨raw', List.mem_cons_of_mem _ hraw', hf⟩

/-- A normalized field has what its raw field states, with some fields inside it. -/
theorem normalizeField_ofRaw {f : Field} (h : normalizeField owner raw = .ok f) :
    ∃ name fields, f = Field.ofRaw raw name fields := by
  obtain ⟨name, fields, -, -, -, hf⟩ := normalizeField_ok_iff.mp h
  exact ⟨name, fields, hf⟩

/-- Raw fields can be normalized side by side if each can be, and their names differ. -/
theorem exists_siblings_iff :
    (∃ fields, (normalizeEach owner raws).bind (siblings owner) = .ok fields) ↔
      (raws.map (·.name)).Nodup ∧ ∀ raw ∈ raws, ∃ f, normalizeField owner raw = .ok f := by
  have hnames {fields : List Field} (h : normalizeEach owner raws = .ok fields) :
      (raws.map (·.name)).Nodup ↔ (fields.map (·.name)).Nodup := by
    have hmap : fields.map (fun f => some f.name) = (fields.map (·.name)).map some := by simp
    rw [names_normalizeEach h, hmap, List.nodup_map_iff fun _ _ heq => Option.some.inj heq]
  rw [← exists_normalizeEach_iff]
  simp only [bind_eq_ok_iff, siblings_ok_iff]
  constructor
  · rintro ⟨_, fields, hfields, hnodup, -⟩
    exact ⟨(hnames hfields).mpr hnodup, fields, hfields⟩
  · rintro ⟨hnodup, fields, hfields⟩
    exact ⟨fields, fields, hfields, (hnames hfields).mp hnodup, rfl⟩

/-- What it takes to normalize a raw field. -/
theorem exists_normalizeField_iff : (∃ f, normalizeField owner raw = .ok f) ↔
    ∃ name, raw.name = some name ∧ name ≠ "" ∧ raw.shapeCount = 1 ∧ raw.illTyped = false ∧
      ∀ raws, raw.nested = some raws → (raws.map (·.name)).Nodup ∧
        ∀ inner ∈ raws, ∃ f, normalizeField (fieldLabel owner name) inner = .ok f := by
  have hinner (label : String) : (∃ fields, raw.normalizeNested label = .ok fields) ↔
      ∀ raws, raw.nested = some raws → (raws.map (·.name)).Nodup ∧
        ∀ inner ∈ raws, ∃ f, normalizeField label inner = .ok f := by
    unfold RawField.normalizeNested
    cases raw.nested with
    | none => simp
    | some raws => simpa using exists_siblings_iff
  constructor
  · rintro ⟨f, hf⟩
    obtain ⟨name, fields, husable, hfields, htyped, -⟩ := normalizeField_ok_iff.mp hf
    obtain ⟨hname, hne, hcount⟩ := usable_ok_iff.mp husable
    exact ⟨name, hname, hne, hcount, htyped, (hinner _).mp ⟨fields, hfields⟩⟩
  · rintro ⟨name, hname, hne, hcount, htyped, hnested⟩
    obtain ⟨fields, hfields⟩ := (hinner (fieldLabel owner name)).mpr hnested
    have husable : raw.usable owner = .ok name := usable_ok_iff.mpr ⟨hname, hne, hcount⟩
    exact ⟨_, normalizeField_ok_iff.mpr ⟨name, fields, husable, hfields, htyped, rfl⟩⟩

/-! ## Every depth -/

mutual

/-- The raw field, and those inside it at every depth. -/
def RawField.withNested : RawField → List RawField
  | ⟨name, scalar, required, isArray, enumName, enumValues, target, nested, defaultValue, isPrimary,
      isUnique, description, typeToken, illTyped⟩ =>
    ⟨name, scalar, required, isArray, enumName, enumValues, target, nested, defaultValue, isPrimary,
      isUnique, description, typeToken, illTyped⟩ ::
      match nested with
      | some raws => allNested raws
      | none => []

/-- The raw fields, and those inside them at every depth. -/
def allNested : List RawField → List RawField
  | [] => []
  | raw :: raws => raw.withNested ++ allNested raws

end

theorem mem_allNested {r : RawField} : r ∈ allNested raws ↔ ∃ raw ∈ raws, r ∈ raw.withNested := by
  induction raws with
  | nil => simp [allNested]
  | cons raw raws ih => simp [allNested, ih]

theorem withNested_eq (raw : RawField) :
    raw.withNested = raw :: (raw.nested.map allNested).getD [] := by
  obtain ⟨_, _, _, _, _, _, _, nested, _, _, _, _, _, _⟩ := raw
  cases nested <;> simp [RawField.withNested]

theorem sizeOf_lt_of_nested {r : RawField} (h : raw.nested = some raws) (hr : r ∈ raws) :
    sizeOf r < sizeOf raw := by
  obtain ⟨_, _, _, _, _, _, _, nested, _, _, _, _, _, _⟩ := raw
  obtain rfl : nested = some raws := h
  have hlt := List.sizeOf_lt_of_mem hr
  simp only [RawField.mk.sizeOf_spec, Option.some.sizeOf_spec]
  omega

/-- What holds of a field with a name, if the fields inside it have different names and it holds of each of
them, holds of every normalized field. -/
theorem normalizeField_induct {P : Field → Prop}
    (hofRaw : ∀ raw name fields, name ≠ "" → (fields.map (·.name)).Nodup → (∀ f ∈ fields, P f) →
      P (Field.ofRaw raw name fields))
    (owner : String) (raw : RawField) {f : Field} (h : normalizeField owner raw = .ok f) : P f := by
  obtain ⟨name, fields, husable, hnested, -, rfl⟩ := normalizeField_ok_iff.mp h
  obtain ⟨-, hne, -⟩ := usable_ok_iff.mp husable
  cases hraws : raw.nested with
  | none =>
    simp only [RawField.normalizeNested, hraws, Except.ok.injEq] at hnested
    subst hnested
    exact hofRaw raw name [] hne List.nodup_nil (by simp)
  | some raws =>
    simp only [RawField.normalizeNested, hraws, bind_eq_ok_iff, siblings_ok_iff] at hnested
    obtain ⟨_, heach, hnodup, rfl⟩ := hnested
    refine hofRaw raw name fields hne hnodup fun f hf => ?_
    obtain ⟨inner, hinner, hf⟩ := mem_normalizeEach heach hf
    exact normalizeField_induct hofRaw _ inner hf
termination_by sizeOf raw
decreasing_by exact sizeOf_lt_of_nested hraws hinner

/-- The fields of a normalized model have different names, and what holds of normalized fields holds of
each of them. -/
theorem Model.ofRaw_induct {P : Field → Prop}
    (hofRaw : ∀ raw name fields, name ≠ "" → (fields.map (·.name)).Nodup → (∀ f ∈ fields, P f) →
      P (Field.ofRaw raw name fields))
    {m : RawModel} {model : Model} (h : Model.ofRaw m = .ok model) :
    model.fieldNames.Nodup ∧ ∀ f ∈ model.fields, P f := by
  obtain ⟨fields, heach, hsiblings⟩ := bind_eq_ok_iff.mp (Model.ofRaw_ok h).2.2
  obtain ⟨hnodup, hkept⟩ := siblings_ok_iff.mp hsiblings
  rw [Model.fieldNames, hkept]
  refine ⟨hnodup, fun f hf => ?_⟩
  obtain ⟨raw, -, hf⟩ := mem_normalizeEach heach hf
  exact normalizeField_induct hofRaw _ raw hf

/-- A raw field with exactly one shape, and different names inside it. -/
structure RawField.IsWellShaped (raw : RawField) : Prop where
  named : raw.name.isSome
  shape : raw.shapeCount = 1
  typed : raw.illTyped = false
  siblings : ∀ raws, raw.nested = some raws → (raws.map (·.name)).Nodup

theorem mem_withNested {r : RawField} : r ∈ raw.withNested ↔
    r = raw ∨ ∃ raws, raw.nested = some raws ∧ ∃ inner ∈ raws, r ∈ inner.withNested := by
  rw [withNested_eq, List.mem_cons]
  cases raw.nested <;> simp [mem_allNested]

/-- A raw field can be normalized exactly if all shapes are in order at every depth and no name is empty. -/
theorem normalizes_iff (owner : String) (raw : RawField) :
    (∃ f, normalizeField owner raw = .ok f) ↔
      ∀ r ∈ raw.withNested, r.IsWellShaped ∧ r.name ≠ some "" := by
  have hinner (label : String) (raws : List RawField) (hraws : raw.nested = some raws)
      (inner : RawField) (hmem : inner ∈ raws) : (∃ f, normalizeField label inner = .ok f) ↔
        ∀ r ∈ inner.withNested, r.IsWellShaped ∧ r.name ≠ some "" :=
    normalizes_iff label inner
  rw [exists_normalizeField_iff]
  constructor
  · rintro ⟨name, hname, hne, hshape, htyped, hnested⟩ r hr
    rcases mem_withNested.mp hr with rfl | ⟨raws, hraws, inner, hmem, hr⟩
    · exact ⟨⟨by simp [hname], hshape, htyped, fun raws hraws => (hnested raws hraws).1⟩,
        by simpa [hname] using hne⟩
    · exact (hinner _ raws hraws inner hmem).mp ((hnested raws hraws).2 inner hmem) r hr
  · intro h
    obtain ⟨hself, hne⟩ := h raw (mem_withNested.mpr (Or.inl rfl))
    obtain ⟨name, hname⟩ := Option.isSome_iff_exists.mp hself.named
    refine ⟨name, hname, fun heq => hne (heq ▸ hname), hself.shape, hself.typed, fun raws hraws =>
      ⟨hself.siblings raws hraws, fun inner hmem => (hinner _ raws hraws inner hmem).mpr ?_⟩⟩
    exact fun r hr => h r (mem_withNested.mpr (Or.inr ⟨raws, hraws, inner, hmem, hr⟩))
termination_by sizeOf raw
decreasing_by exact sizeOf_lt_of_nested hraws hmem

/-! ## Models -/

/-- The fields of a raw model can be normalized exactly if all shapes are in order at every depth, no name
is empty and no two fields of the model share a name. -/
theorem fieldsNormalize_iff_wellShaped {m : RawModel} : m.FieldsNormalize ↔
    (m.fields.map (·.name)).Nodup ∧
      ∀ r ∈ allNested m.fields, r.IsWellShaped ∧ r.name ≠ some "" := by
  unfold RawModel.FieldsNormalize
  rw [exists_siblings_iff]
  refine and_congr_right fun _ => ?_
  constructor
  · intro hfields r hr
    obtain ⟨raw, hraw, hr⟩ := mem_allNested.mp hr
    exact (normalizes_iff m.name raw).mp (hfields raw hraw) r hr
  · intro h raw hraw
    exact (normalizes_iff m.name raw).mpr fun r hr => h r (mem_allNested.mpr ⟨raw, hraw, hr⟩)

/-- Where all shapes are in order, the fields of a raw model can be normalized unless two of them share a
name or a name is empty. -/
theorem fieldsNormalize_iff {m : RawModel} (h : ∀ r ∈ allNested m.fields, r.IsWellShaped) :
    m.FieldsNormalize ↔ (m.fields.map (·.name)).Nodup ∧ ∀ r ∈ allNested m.fields, r.name ≠ some "" := by
  rw [fieldsNormalize_iff_wellShaped]
  exact and_congr_right fun _ => forall₂_congr fun r hr => and_iff_right (h r hr)

/-- The raw models that can be normalized. -/
theorem Model.ofRaw_ok_iff {m : RawModel} :
    (∃ model, Model.ofRaw m = .ok model) ↔ m.IsLabelled ∧ m.FieldsNormalize := by
  constructor
  · rintro ⟨model, hmodel⟩
    have hfields : m.FieldsNormalize := ⟨_, (Model.ofRaw_ok hmodel).2.2⟩
    refine ⟨?_, hfields⟩
    by_contra hlabelled
    obtain ⟨faults, hfaulty⟩ := Model.ofRaw_unlabelled hfields hlabelled
    simp [hfaulty] at hmodel
  · rintro ⟨hlabelled, hfields⟩
    exact Model.ofRaw_labelled hfields hlabelled

end SchemaTypes
