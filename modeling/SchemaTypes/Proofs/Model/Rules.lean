import SchemaTypes.Proofs.Model.Renormalization
import SchemaTypes.Proofs.References.Marking

/-!
# Normalization and the rules for models

Fields, elements and models have rules of their own: one shape, texts where an enum is stated, different
names side by side. They hold whoever makes a model, and are checked when it is made. Normalization looks at
the name and the shape of a raw field before it makes a field of it, and at the names of fields that stand
side by side. So the rules are stated twice, and here normalization is followed with every check of a rule
in its place: a field whose rules are broken would be reported as malformed.

This branch is never taken, except for values of a wrong type. What a raw field with one shape states is
what the field made of it states, and the rules hold of that. So the checks change nothing, and a raw model
can be normalized exactly if its fields are well formed at every depth.

Results:
* `RawField.elementRecord_eq`, `RawField.record_eq`: what a raw field with one shape states.
* `Field.checked_eq_ofRaw`: the rules hold of what normalization makes.
* `normalizeChecked_eq`, `Model.ofRawChecked_eq`: normalization with and without the checks.
* `Model.WellNamed.meetsRules`: the rules at every depth of a model.
* `normalizeField_error`: the faults of raw fields without values of a wrong type.
* `normalization_keeps_rules`: the raw models that are accepted, and what becomes of all of them.
-/

namespace SchemaTypes

/-! ## Records of raw fields -/

/-- What a raw field states about the element of an array. Without texts there is no enum to be named. -/
def RawField.elementRecord (raw : RawField) (fields : List Field) : ElementRecord :=
  { scalar := raw.scalar
    enumName := if raw.enumValues.isSome then raw.enumName else none
    enumValues := raw.enumValues
    target := raw.target
    fields := raw.nested.map fun _ => fields
    isSelfReference := false }

/-- What a raw field states about a field, its shape left out. -/
def RawField.shapelessRecord (raw : RawField) (name : String) : FieldRecord :=
  { name, scalar := none, required := raw.required.getD true, isArray := false, element := none
    isEnum := false, enumName := none, enumValues := none, isReference := false, target := none
    isSelfReference := false, fields := none, defaultValue := raw.defaultValue
    isPrimary := raw.isPrimary.getD false, isUnique := raw.isUnique.getD false
    description := raw.description }

/-- What a raw field states about a field, or the rule that the element of its array breaks. `fields` are
those inside it. -/
def RawField.record (raw : RawField) (name : String) (fields : List Field) :
    Except String FieldRecord :=
  let r := raw.shapelessRecord name
  if raw.isArray.getD false then
    (raw.elementRecord fields).item.map fun item =>
      { r with isArray := true, element := some (item, false) }
  else
    .ok (match raw.enumValues, raw.target, raw.nested with
      | some values, _, _ =>
        { r with isEnum := true, enumName := raw.enumName, enumValues := some values }
      | none, some target, _ => { r with isReference := true, target := some target }
      | none, none, some _ => { r with fields := some fields }
      | none, none, none => { r with scalar := raw.scalar })

/-- The field that a raw field describes, with the rules for elements and fields checked. -/
def Field.checked (raw : RawField) (name : String) (fields : List Field) : Checked Field :=
  (Checked.ofRule (raw.record name fields)).andThen fun r =>
    ((Checked.nonempty r.name).below "name").andThen fun _ => Checked.ofRule r.field

/-! ## Normalization with checks -/

mutual

/-- A normalized field, with its rules checked when it is made. -/
def normalizeChecked (owner : String) : RawField → Except FieldFault Field
  | ⟨name, scalar, required, isArray, enumName, enumValues, target, nested, defaultValue,
      isPrimary, isUnique, description, typeToken, illTyped⟩ => do
    let raw : RawField := ⟨name, scalar, required, isArray, enumName, enumValues, target, nested,
      defaultValue, isPrimary, isUnique, description, typeToken, illTyped⟩
    let name ← raw.usable owner
    let label := fieldLabel owner name
    let fields ← match nested with
      | some raws => (normalizeEachChecked label raws).bind (siblings label)
      | none => pure []
    if illTyped then throw (.illTyped label)
    match Field.checked raw name fields with
    | .ok field => return field
    | .faulty _ => throw (.illTyped label)

/-- Normalized fields, each for itself, with their rules checked. -/
def normalizeEachChecked (owner : String) : List RawField → Except FieldFault (List Field)
  | [] => .ok []
  | raw :: raws => do
    let field ← normalizeChecked owner raw
    let fields ← normalizeEachChecked owner raws
    return field :: fields

end

/-- A normalized model, with its rules and those of its fields checked. -/
def Model.ofRawChecked (raw : RawModel) : Except Problem Model :=
  match (normalizeEachChecked raw.name raw.fields).bind (siblings raw.name) with
  | .error fault => .error (.issue fault.issue)
  | .ok fields =>
    let checked : Checked Model :=
      (fun name fields sourceKind => Model.mk name fields sourceKind raw.sourcePath raw.description)
        <$> (Checked.nonempty raw.name).below "name"
        <*> ((Checked.ok fields).keeping (repeatedNames? "model")).below "fields"
        <*> (Check.literal SourceKind.choices (.str raw.sourceKind)).below "source_kind"
    match checked with
    | .ok model => .ok model
    | .faulty faults => .error (.invalid faults)

/-! ## The checks find nothing -/

section Field

variable {raw : RawField} {owner name label : String} {fields : List Field}

/-- A raw field with one shape. -/
theorem RawField.shape_cases (h : raw.shapeCount = 1) :
    (∃ kind, raw.scalar = some kind ∧ raw.enumValues = none ∧ raw.target = none ∧ raw.nested = none) ∨
    (∃ values, raw.scalar = none ∧ raw.enumValues = some values ∧ raw.target = none ∧
      raw.nested = none) ∨
    (∃ target, raw.scalar = none ∧ raw.enumValues = none ∧ raw.target = some target ∧
      raw.nested = none) ∨
    ∃ raws, raw.scalar = none ∧ raw.enumValues = none ∧ raw.target = none ∧ raw.nested = some raws := by
  unfold shapeCount at h
  cases hscalar : raw.scalar <;> cases hvalues : raw.enumValues <;> cases htarget : raw.target <;>
    cases hnested : raw.nested <;> simp [hscalar, hvalues, htarget, hnested] at h ⊢

/-- What a raw field with one shape states about an element is what the element states. -/
theorem RawField.elementRecord_eq (h : raw.shapeCount = 1) :
    raw.elementRecord fields = (raw.item fields).statements false := by
  rcases shape_cases h with ⟨kind, hscalar, hvalues, htarget, hnested⟩ |
    ⟨values, hscalar, hvalues, htarget, hnested⟩ | ⟨target, hscalar, hvalues, htarget, hnested⟩ |
    ⟨raws, hscalar, hvalues, htarget, hnested⟩ <;>
  simp [elementRecord, item, ItemType.statements, hscalar, hvalues, htarget, hnested]

/-- What a raw field with one shape states about a field is what the field states. -/
theorem RawField.record_eq (h : raw.shapeCount = 1) (hitem : (raw.item fields).wellNamed = true) :
    raw.record name fields = .ok (Field.ofRaw raw name fields).statements := by
  unfold record Field.ofRaw
  cases raw.isArray.getD false with
  | true =>
    rw [elementRecord_eq h, ItemType.item_statements hitem]
    rfl
  | false =>
    rcases shape_cases h with ⟨kind, hscalar, hvalues, htarget, hnested⟩ |
      ⟨values, hscalar, hvalues, htarget, hnested⟩ | ⟨target, hscalar, hvalues, htarget, hnested⟩ |
      ⟨raws, hscalar, hvalues, htarget, hnested⟩ <;>
    simp [shapelessRecord, item, Field.statements, ItemType.statements, ItemType.isEnum,
      ItemType.isReference, hscalar, hvalues, htarget, hnested]

/-- The fields inside a raw field have different names and are well named. -/
theorem RawField.normalizeNested_wellNamed (h : raw.normalizeNested label = .ok fields) :
    (fields.map (·.name)).Nodup ∧ ∀ f ∈ fields, f.wellNamed = true := by
  unfold normalizeNested at h
  split at h
  · obtain ⟨_, heach, hsiblings⟩ := bind_eq_ok_iff.mp h
    obtain ⟨hnodup, rfl⟩ := siblings_ok_iff.mp hsiblings
    refine ⟨hnodup, fun f hf => ?_⟩
    obtain ⟨inner, -, hinner⟩ := mem_normalizeEach heach hf
    exact normalizeField_induct (fun raw _ _ hname => Field.ofRaw_wellNamed raw hname) _ inner hinner
  · rw [← Except.ok.inj h]
    simp

/-- The rules hold of the field that normalization makes. -/
theorem Field.checked_eq_ofRaw (husable : raw.usable owner = .ok name)
    (hnested : raw.normalizeNested label = .ok fields) :
    Field.checked raw name fields = .ok (Field.ofRaw raw name fields) := by
  obtain ⟨-, hne, hshape⟩ := usable_ok_iff.mp husable
  obtain ⟨hnodup, hfields⟩ := RawField.normalizeNested_wellNamed hnested
  have hwell := Field.ofRaw_wellNamed raw hne hnodup hfields
  have hitem := raw.item_wellNamed hnodup hfields
  have hname : (Field.ofRaw raw name fields).statements.name = name := by
    unfold Field.ofRaw
    cases raw.isArray.getD false <;> rfl
  rw [Field.checked, RawField.record_eq hshape hitem]
  show ((Checked.nonempty _).below "name").andThen _ = _
  rw [hname, Checked.nonempty_ok_iff.mpr ⟨hne, rfl⟩]
  show Checked.ofRule _ = _
  rw [Field.field_statements hwell]
  rfl

end Field

/-- Two computations go on alike if they do so wherever the first step has a result. -/
theorem bind_congr_ok {ε α β : Type} {x : Except ε α} {f g : α → Except ε β}
    (h : ∀ a, x = .ok a → f a = g a) : x.bind f = x.bind g := by
  cases x with
  | error => rfl
  | ok a => exact h a rfl

/-- The steps of normalizing a raw field with checks, once the fields inside it are normalized alike. -/
theorem normalizeChecked_step {owner : String} {raw : RawField} :
    (raw.usable owner).bind (fun name => (raw.normalizeNested (fieldLabel owner name)).bind fun fields =>
      if raw.illTyped then .error (.illTyped (fieldLabel owner name))
      else match Field.checked raw name fields with
        | .ok field => .ok field
        | .faulty _ => .error (.illTyped (fieldLabel owner name))) = normalizeField owner raw := by
  rw [normalizeField_eq]
  refine bind_congr_ok fun name hname => bind_congr_ok fun fields hfields => ?_
  rw [Field.checked_eq_ofRaw hname hfields]

mutual

/-- The checks change nothing for a raw field. -/
theorem normalizeChecked_eq (owner : String) : ∀ raw : RawField,
    normalizeChecked owner raw = normalizeField owner raw
  | ⟨_, _, _, _, _, _, _, none, _, _, _, _, _, illTyped⟩ => by
    rw [normalizeChecked, ← normalizeChecked_step]
    cases illTyped <;> rfl
  | ⟨_, _, _, _, _, _, _, some raws, _, _, _, _, _, illTyped⟩ => by
    rw [normalizeChecked, ← normalizeChecked_step]
    simp only [normalizeEachChecked_eq _ raws]
    cases illTyped <;> rfl

/-- The checks change nothing for raw fields side by side. -/
theorem normalizeEachChecked_eq (owner : String) : ∀ raws : List RawField,
    normalizeEachChecked owner raws = normalizeEach owner raws
  | [] => by rw [normalizeEachChecked, normalizeEach]
  | raw :: raws => by
    rw [normalizeEachChecked, normalizeEach, normalizeChecked_eq owner raw,
      normalizeEachChecked_eq owner raws]

end

/-- The checks change nothing for a raw model. -/
theorem Model.ofRawChecked_eq (raw : RawModel) : Model.ofRawChecked raw = Model.ofRaw raw := by
  unfold ofRawChecked ofRaw
  rw [normalizeEachChecked_eq]
  cases hfields : (normalizeEach raw.name raw.fields).bind (siblings raw.name) with
  | error fault => rfl
  | ok fields =>
    obtain ⟨_, -, hsiblings⟩ := bind_eq_ok_iff.mp hfields
    obtain ⟨hnodup, rfl⟩ := siblings_ok_iff.mp hsiblings
    have hkept : (Checked.ok fields).keeping (repeatedNames? "model") = .ok fields := by
      simp [Checked.keeping, Checked.andThen, (repeatedNames?_eq_none_iff "model").mpr hnodup]
    dsimp only
    rw [hkept]
    cases Checked.nonempty raw.name <;>
      cases Check.literal SourceKind.choices (.str raw.sourceKind) <;> rfl

/-! ## Rules at every depth -/

/-- The rules for what stands at a place: a field with a name whose statements describe it, or an element
whose statements describe its item. -/
def Position.MeetsRules : Position → Prop
  | field f => Checked.nonempty f.name = .ok f.name ∧ f.statements.field = .ok f
  | element item isSelfReference => (item.statements isSelfReference).item = .ok item

/-- A model that meets the rules for models, and those for fields and elements at every depth. -/
structure Model.MeetsRules (m : Model) : Prop where
  named : Checked.nonempty m.name = .ok m.name
  distinct : repeatedNames? "model" m.fields = none
  positions : ∀ p ∈ m.positions, p.MeetsRules

theorem Field.meetsRules {f : Field} (h : f.wellNamed = true) : (Position.field f).MeetsRules := by
  have hname : f.name ≠ "" := by
    obtain ⟨name, required, shape, _, _, _, _, _⟩ := f
    cases shape <;> simp_all [Field.wellNamed]
  exact ⟨Checked.nonempty_ok_iff.mpr ⟨hname, rfl⟩, Field.field_statements h⟩

mutual

theorem ItemType.positions_meetRules : ∀ item : ItemType, item.wellNamed = true →
    ∀ p ∈ item.positions, p.MeetsRules
  | .scalar _, _ => by simp [ItemType.positions]
  | .enum _ _, _ => by simp [ItemType.positions]
  | .reference _, _ => by simp [ItemType.positions]
  | .object fields, h => by
    rw [ItemType.wellNamed, Bool.and_eq_true] at h
    rw [ItemType.positions]
    exact positionsOf_meetRules fields h.2

/-- Well-named fields meet the rules at every depth. -/
theorem positionsOf_meetRules : ∀ fields : List Field, fieldsWellNamed fields = true →
    ∀ p ∈ positionsOf fields, p.MeetsRules
  | [], _ => by simp [positionsOf]
  | ⟨name, _, .single item, _, _, _, _, _⟩ :: fields, h => by
    rw [fieldsWellNamed, Bool.and_eq_true] at h
    have hself := Field.meetsRules h.1
    rw [Field.wellNamed, Bool.and_eq_true] at h
    rw [positionsOf, Shape.positions, List.forall_mem_cons, List.forall_mem_append]
    exact ⟨hself, ItemType.positions_meetRules item h.1.2, positionsOf_meetRules fields h.2⟩
  | ⟨name, _, .array item marked, _, _, _, _, _⟩ :: fields, h => by
    rw [fieldsWellNamed, Bool.and_eq_true] at h
    have hself := Field.meetsRules h.1
    rw [Field.wellNamed, Bool.and_eq_true] at h
    have helement : (Position.element item marked).MeetsRules :=
      ItemType.item_statements h.1.2 marked
    rw [positionsOf, Shape.positions, List.forall_mem_cons, List.forall_mem_append,
      List.forall_mem_cons]
    exact ⟨hself, ⟨helement, ItemType.positions_meetRules item h.1.2⟩,
      positionsOf_meetRules fields h.2⟩

end

/-- A well-named model meets the rules at every depth. -/
theorem Model.WellNamed.meetsRules {m : Model} (h : m.WellNamed) : m.MeetsRules where
  named := Checked.nonempty_ok_iff.mpr ⟨h.named, rfl⟩
  distinct := (repeatedNames?_eq_none_iff "model").mpr h.distinct
  positions := positionsOf_meetRules m.fields h.fields

/-! ## Faults -/

/-- Whether a field is reported as malformed because of a value in it. -/
def FieldFault.isIllTyped : FieldFault → Bool
  | illTyped _ => true
  | _ => false

/-- A computation that may fail, read off its failure. -/
theorem bind_eq_error_iff {ε α β : Type} {x : Except ε α} {f : α → Except ε β} {e : ε} :
    x.bind f = .error e ↔ x = .error e ∨ ∃ a, x = .ok a ∧ f a = .error e := by
  cases x <;> simp [Except.bind]

section Faults

variable {owner : String} {fault : FieldFault}

theorem RawField.usable_error {raw : RawField} (h : raw.usable owner = .error fault) :
    fault.isIllTyped = false := by
  unfold usable at h
  split at h
  · obtain rfl := Except.error.inj h
    rfl
  · obtain rfl := Except.error.inj h
    rfl
  · -- A field with a name is reported for no shape or for several.
    split at h
    · obtain rfl := Except.error.inj h
      rfl
    · split at h
      · obtain rfl := Except.error.inj h
        rfl
      · cases h

theorem siblings_error {fields : List Field} (h : siblings owner fields = .error fault) :
    fault.isIllTyped = false := by
  unfold siblings at h
  split at h
  · obtain rfl := Except.error.inj h
    rfl
  · cases h

/-- The fault of raw fields side by side is that of one of them, or that a name is repeated. -/
theorem normalizeEach_siblings_error {raws : List RawField}
    (h : (normalizeEach owner raws).bind (siblings owner) = .error fault) :
    fault.isIllTyped = false ∨ ∃ raw ∈ raws, normalizeField owner raw = .error fault := by
  have hmem : ∀ raws, normalizeEach owner raws = .error fault →
      ∃ raw ∈ raws, normalizeField owner raw = .error fault := by
    intro raws hraws
    induction raws with
    | nil => simp [normalizeEach] at hraws
    | cons raw raws ih =>
      simp only [normalizeEach, bind, bind_eq_error_iff, pure, Except.pure, reduceCtorEq, and_false,
        exists_false, or_false] at hraws
      rcases hraws with hraw | ⟨-, -, hraws⟩
      · exact ⟨raw, List.mem_cons_self, hraw⟩
      · obtain ⟨inner, hinner, hfault⟩ := ih hraws
        exact ⟨inner, List.mem_cons_of_mem _ hinner, hfault⟩
  rcases bind_eq_error_iff.mp h with heach | ⟨fields, -, hsiblings⟩
  · exact Or.inr (hmem raws heach)
  · exact Or.inl (siblings_error hsiblings)

/-- A raw field without values of a wrong type at any depth is never reported for a value. -/
theorem normalizeField_error (owner : String) (raw : RawField)
    (htyped : ∀ r ∈ raw.withNested, r.illTyped = false)
    (h : normalizeField owner raw = .error fault) : fault.isIllTyped = false := by
  have hself : raw.illTyped = false := htyped raw (mem_withNested.mpr (Or.inl rfl))
  rw [normalizeField_eq, bind_eq_error_iff] at h
  rcases h with husable | ⟨name, -, h⟩
  · exact RawField.usable_error husable
  · rcases bind_eq_error_iff.mp h with hnested | ⟨fields, -, h⟩
    · cases hraws : raw.nested with
      | none => simp [RawField.normalizeNested, hraws] at hnested
      | some raws =>
        rw [RawField.normalizeNested, hraws] at hnested
        rcases normalizeEach_siblings_error hnested with hfault | ⟨inner, hinner, hfault⟩
        · exact hfault
        · exact normalizeField_error _ inner
            (fun r hr => htyped r (mem_withNested.mpr (Or.inr ⟨raws, hraws, inner, hinner, hr⟩))) hfault
    · simp [hself] at h
termination_by sizeOf raw
decreasing_by exact sizeOf_lt_of_nested hraws hinner

end Faults

/-! ## Models -/

/-- A raw field with a name, exactly one statement about its shape, and different names side by side inside
it. -/
structure RawField.IsWellFormed (raw : RawField) : Prop where
  named : ∃ name, raw.name = some name ∧ name ≠ ""
  shape : [raw.scalar.isSome, raw.enumValues.isSome, raw.target.isSome,
    raw.nested.isSome].count true = 1
  siblings : ∀ raws, raw.nested = some raws → (raws.map (·.name)).Nodup

theorem RawField.shapeCount_eq (raw : RawField) : raw.shapeCount =
    [raw.scalar.isSome, raw.enumValues.isSome, raw.target.isSome, raw.nested.isSome].count true := by
  unfold shapeCount
  cases raw.scalar <;> cases raw.enumValues <;> cases raw.target <;> cases raw.nested <;> rfl

theorem RawField.isWellFormed_iff {raw : RawField} (htyped : raw.illTyped = false) :
    raw.IsWellShaped ∧ raw.name ≠ some "" ↔ raw.IsWellFormed := by
  constructor
  · rintro ⟨hshaped, hne⟩
    obtain ⟨name, hname⟩ := Option.isSome_iff_exists.mp hshaped.named
    exact ⟨⟨name, hname, fun hempty => hne (hempty ▸ hname)⟩, raw.shapeCount_eq ▸ hshaped.shape,
      hshaped.siblings⟩
  · rintro ⟨⟨name, hname, hne⟩, hshape, hsiblings⟩
    refine ⟨⟨by simp [hname], raw.shapeCount_eq ▸ hshape, htyped, hsiblings⟩, ?_⟩
    simpa [hname] using hne

/-- Normalization and the rules agree. The checks of the rules change nothing. A raw model that is labelled
and has no values of a wrong type is accepted exactly if its fields have different names and are well formed
at every depth. What is accepted meets the rules at every depth, and what is not is reported for the name or
the shape of a field, never for a rule that was found broken when a field was made. -/
theorem normalization_keeps_rules {raw : RawModel} (hlabelled : raw.IsLabelled)
    (htyped : ∀ r ∈ allNested raw.fields, r.illTyped = false) :
    Model.ofRawChecked raw = Model.ofRaw raw ∧
    ((∃ m, Model.ofRawChecked raw = .ok m) ↔
      (raw.fields.map (·.name)).Nodup ∧ ∀ r ∈ allNested raw.fields, r.IsWellFormed) ∧
    (∀ m, Model.ofRawChecked raw = .ok m → m.MeetsRules) ∧
    ∀ problem, Model.ofRawChecked raw = .error problem → ∃ fault : FieldFault,
      (normalizeEachChecked raw.name raw.fields).bind (siblings raw.name) = .error fault ∧
      problem = .issue fault.issue ∧ fault.isIllTyped = false := by
  rw [Model.ofRawChecked_eq, normalizeEachChecked_eq]
  have hformed : raw.FieldsNormalize ↔
      (raw.fields.map (·.name)).Nodup ∧ ∀ r ∈ allNested raw.fields, r.IsWellFormed := by
    rw [fieldsNormalize_iff_wellShaped]
    exact and_congr_right fun _ => forall₂_congr fun r hr => RawField.isWellFormed_iff (htyped r hr)
  refine ⟨rfl, ?_, fun m hm => (Model.ofRaw_wellNamed hm).meetsRules, fun problem hproblem => ?_⟩
  · rw [Model.ofRaw_ok_iff, hformed]
    exact and_iff_right hlabelled
  · cases hfields : (normalizeEach raw.name raw.fields).bind (siblings raw.name) with
    | ok fields =>
      obtain ⟨m, hm⟩ := Model.ofRaw_labelled ⟨fields, hfields⟩ hlabelled
      rw [hm] at hproblem
      cases hproblem
    | error fault =>
      refine ⟨fault, rfl, ?_, ?_⟩
      · rw [Model.ofRaw, hfields] at hproblem
        exact (Except.error.inj hproblem).symm
      · rcases normalizeEach_siblings_error hfields with hfault | ⟨inner, hinner, hfault⟩
        · exact hfault
        · exact normalizeField_error _ inner
            (fun r hr => htyped r (mem_allNested.mpr ⟨inner, hinner, hr⟩)) hfault

/-- A raw model with two shapes for a field inside the objects of an array. -/
def rawClash : RawModel :=
  { name := "Post", sourceKind := "prisma"
    fields := [{ name := some "id", scalar := some .number },
      { name := some "tags", isArray := some true, nested := some [
        { name := some "text", scalar := some .string },
        { name := some "kind", enumValues := some ["a", "b"], target := some "Kind" }] }] }

theorem normalization_keeps_rules_samples :
    Model.ofRawChecked rawFolder = .ok (folder false false) ∧ (folder false false).MeetsRules ∧
    (∀ r ∈ allNested rawFolder.fields, r.IsWellFormed) ∧
    Model.ofRawChecked rawClash =
      .error (.issue (FieldFault.manyShapes "Post.tags.kind").issue) ∧
    ¬((rawClash.fields.map (·.name)).Nodup ∧ ∀ r ∈ allNested rawClash.fields, r.IsWellFormed) := by
  have hfolder : Model.ofRawChecked rawFolder = .ok (folder false false) := by
    rw [Model.ofRawChecked_eq]
    rfl
  have hclash : Model.ofRawChecked rawClash =
      .error (.issue (FieldFault.manyShapes "Post.tags.kind").issue) := rfl
  have hlabelled : rawFolder.IsLabelled ∧ rawClash.IsLabelled :=
    ⟨⟨by decide, .mongoose, rfl⟩, ⟨by decide, .prisma, rfl⟩⟩
  obtain ⟨-, haccepted, hrules, -⟩ := normalization_keeps_rules hlabelled.1 (by decide)
  obtain ⟨-, hrejected, -, -⟩ := normalization_keeps_rules hlabelled.2 (by decide)
  refine ⟨hfolder, hrules _ hfolder, (haccepted.mp ⟨_, hfolder⟩).2, hclash, fun hformed => ?_⟩
  obtain ⟨m, hm⟩ := hrejected.mpr hformed
  rw [hclash] at hm
  cases hm

end SchemaTypes
