import SchemaTypes.Proofs.Model.Shapes
import SchemaTypes.References.Analysis

/-!
# Models that are normalized again

A normalized model can be normalized again: it is written as a record, and the record is checked like one
from outside. The check reads every entry at every depth, tells the shape of a field or an element from the
entries that are not null, and asks for names that are there and differ. All this is found in the record of
a model whose fields have names, different ones side by side at every depth, and the check gives the model
back. Normalization yields such models, and marks on references do not touch names.

Results:
* `Field.field_statements`, `ItemType.item_statements`: what a record states describes the field or element
  that it was written for.
* `Field.check_toJson`, `fieldsFrom_toJson`: records of fields are read back.
* `Model.ofRaw_wellNamed`, `Model.WellNamed.markSelf`: normalized and marked models are well named.
* `renormalize_ofRaw`: they come back as they are.
-/

namespace SchemaTypes

/-- A normalized model, normalized again: it is written as a record, and the record is checked. -/
def Model.renormalize (m : Model) : Checked Model :=
  Check.model m.toJson

/-! ## Names at every depth -/

mutual

/-- Whether the fields of an item have names, different ones side by side, at every depth. -/
def ItemType.wellNamed : ItemType → Bool
  | .scalar _ => true
  | .enum _ _ => true
  | .reference _ => true
  | .object fields => decide (fields.map (·.name)).Nodup && fieldsWellNamed fields

/-- Whether a field has a name, and the fields inside it are well named. -/
def Field.wellNamed : Field → Bool
  | ⟨name, _, .single item, _, _, _, _, _⟩ => name != "" && item.wellNamed
  | ⟨name, _, .array item _, _, _, _, _, _⟩ => name != "" && item.wellNamed

/-- Whether fields are well named, each for itself. -/
def fieldsWellNamed : List Field → Bool
  | [] => true
  | f :: fields => f.wellNamed && fieldsWellNamed fields

end

/-- A model with a name and well-named fields, no two of them with one name. -/
structure Model.WellNamed (m : Model) : Prop where
  named : m.name ≠ ""
  distinct : m.fieldNames.Nodup
  fields : fieldsWellNamed m.fields = true

theorem fieldsWellNamed_iff {fields : List Field} :
    fieldsWellNamed fields = true ↔ ∀ f ∈ fields, f.wellNamed = true := by
  induction fields with
  | nil => simp [fieldsWellNamed]
  | cons f fields ih => simp [fieldsWellNamed, ih]

theorem repeatedNames?_eq_none_iff (owner : String) {fields : List Field} :
    repeatedNames? owner fields = none ↔ (fields.map (·.name)).Nodup := by
  rw [← duplicates_eq_nil_iff, repeatedNames?]
  cases duplicates (fields.map (·.name)) <;> simp

/-! ## What a record states -/

/-- What the record of an element states. -/
def ItemType.statements (isSelfReference : Bool) : ItemType → ElementRecord
  | .scalar kind => ⟨some kind, none, none, none, none, isSelfReference⟩
  | .enum name values => ⟨none, name, some values, none, none, isSelfReference⟩
  | .reference target => ⟨none, none, none, some target, none, isSelfReference⟩
  | .object fields => ⟨none, none, none, none, some fields, isSelfReference⟩

/-- What the record of a field states. -/
def Field.statements : Field → FieldRecord
  | ⟨name, required, .single item, isSelf, defaultValue, isPrimary, isUnique, description⟩ =>
    let r := item.statements false
    ⟨name, r.scalar, required, false, none, item.isEnum, r.enumName, r.enumValues, item.isReference,
      r.target, isSelf, r.fields, defaultValue, isPrimary, isUnique, description⟩
  | ⟨name, required, .array item elementSelf, isSelf, defaultValue, isPrimary, isUnique,
      description⟩ =>
    ⟨name, none, required, true, some (item, elementSelf), false, none, none, false, none, isSelf,
      none, defaultValue, isPrimary, isUnique, description⟩

/-- The statements about an element describe its item. -/
theorem ItemType.item_statements {item : ItemType} (h : item.wellNamed = true) (isSelf : Bool) :
    (item.statements isSelf).item = .ok item := by
  cases item with
  | scalar kind => rfl
  | enum name values => cases name <;> rfl
  | reference target => rfl
  | object fields =>
    simp only [ItemType.wellNamed, Bool.and_eq_true, decide_eq_true_eq] at h
    have hnames := (repeatedNames?_eq_none_iff "array element").mpr h.1
    simp [ItemType.statements, ElementRecord.item, demand, hnames, bind, Except.bind, pure,
      Except.pure]

/-- The statements about a field describe it. -/
theorem Field.field_statements {f : Field} (h : f.wellNamed = true) : f.statements.field = .ok f := by
  obtain ⟨name, required, shape, isSelf, defaultValue, isPrimary, isUnique, description⟩ := f
  cases shape with
  | array item elementSelf => rfl
  | single item =>
    cases item with
    | scalar kind => rfl
    | enum enumName values => cases enumName <;> rfl
    | reference target => rfl
    | object fields =>
      simp only [Field.wellNamed, ItemType.wellNamed, Bool.and_eq_true, decide_eq_true_eq] at h
      have hnames := (repeatedNames?_eq_none_iff ("field " ++ ("'" ++ name ++ "'"))).mpr h.2.1
      simp [Field.statements, ItemType.statements, FieldRecord.field, FieldRecord.shape,
        FieldRecord.claims, demand, ItemType.isEnum, ItemType.isReference, hnames, bind, Except.bind,
        pure, Except.pure]

/-! ## Reading records back -/

namespace Checked

variable {α β : Type}

@[simp] theorem map_ok (f : α → β) (a : α) : f <$> ok a = ok (f a) := rfl

@[simp] theorem seq_ok (f : α → β) (a : α) : ok f <*> ok a = ok (f a) := rfl

@[simp] theorem below_ok (key : String) (a : α) : (ok a).below key = ok a := rfl

end Checked

namespace Check

theorem name_ok {s : String} (h : s ≠ "") : name (.str s) = .ok s := by
  simp [name, text, Checked.andThen, h]

theorem text?_ofText? (s : Option String) : text? (Json.ofText? s) = .ok s := by
  cases s <;> rfl

theorem itemsFrom_texts (n : Nat) (values : List String) :
    itemsFrom text n (values.map Json.str) = .ok values := by
  induction values generalizing n with
  | nil => rfl
  | cons value values ih =>
    rw [List.map_cons, itemsFrom, ih]
    rfl

theorem texts?_ofTexts (values : List String) : texts? (Json.ofTexts values) = .ok (some values) := by
  simp [texts?, Json.ofTexts, nullable, items, itemsFrom_texts, Checked.map]

end Check

/-- Whether the entries that describe an item are read as the given statements. -/
structure ItemEntries.ReadAs (e : ItemEntries) (r : ElementRecord) : Prop where
  scalar : Check.scalar? e.scalar = .ok r.scalar
  enumName : Check.text? e.enumName = .ok r.enumName
  enumValues : Check.texts? e.enumValues = .ok r.enumValues
  target : Check.text? e.target = .ok r.target
  fields : Check.fields? e.fields = .ok r.fields

section Records

variable {e : ItemEntries} {r : ElementRecord}

theorem element?_elementRecord (h : e.ReadAs r) :
    Check.element? (e.elementRecord r.isSelfReference) =
      (Checked.ofRule (r.item.map fun item => (item, r.isSelfReference))).map some := by
  obtain ⟨hscalar, hname, hvalues, htarget, hfields⟩ := h
  simp [ItemEntries.elementRecord, Check.element?, Check.elementEntries, Check.optional, Json.lookup,
    Check.fieldsIn, hscalar, hname, hvalues, htarget, hfields, Check.boolean, Check.also,
    Check.noOthers, elementKeys, Checked.map, Checked.seq, Checked.andThen]

theorem field_fieldRecord (h : e.ReadAs r) {element : Json} {read : Option (ItemType × Bool)}
    (helement : Check.element? element = .ok read) {name : String} (hname : name ≠ "")
    (required isArray isEnum isReference isSelf : Bool) (defaultValue : Option String)
    (isPrimary isUnique : Bool) (description : Option String) :
    Check.field (fieldRecord name required isArray e element isEnum isReference isSelf defaultValue
        isPrimary isUnique description) =
      Checked.ofRule (FieldRecord.field ⟨name, r.scalar, required, isArray, read, isEnum, r.enumName,
        r.enumValues, isReference, r.target, isSelf, r.fields, defaultValue, isPrimary, isUnique,
        description⟩) := by
  obtain ⟨hscalar, henum, hvalues, htarget, hfields⟩ := h
  simp [fieldRecord, Check.field, Check.fieldEntries, Check.required, Check.optional, Json.lookup,
    Check.fieldsIn, Check.elementIn, hscalar, henum, hvalues, htarget, hfields, helement,
    Check.name_ok hname, Check.text?_ofText?, Check.boolean, Check.also, Check.noOthers, fieldKeys,
    Checked.map, Checked.seq, Checked.andThen]

end Records

mutual

/-- The entries of an item are read as what they state. -/
theorem ItemType.entries_readAs (isSelf : Bool) : ∀ item : ItemType, item.wellNamed = true →
    item.entries.ReadAs (item.statements isSelf)
  | .scalar kind, _ => by
    refine ⟨?_, rfl, rfl, rfl, rfl⟩
    cases kind <;> rfl
  | .enum name values, _ => ⟨rfl, Check.text?_ofText? name, Check.texts?_ofTexts values, rfl, rfl⟩
  | .reference target, _ => ⟨rfl, rfl, rfl, rfl, rfl⟩
  | .object fields, h => by
    simp only [ItemType.wellNamed, Bool.and_eq_true] at h
    refine ⟨rfl, rfl, rfl, rfl, ?_⟩
    simp [ItemType.entries, ItemType.statements, Check.fields?, fieldsFrom_toJson fields h.2,
      Checked.map]

/-- The record of a field is read back. -/
theorem Field.check_toJson : ∀ f : Field, f.wellNamed = true → Check.field f.toJson = .ok f
  | ⟨name, required, .single item, isSelf, defaultValue, isPrimary, isUnique, description⟩, h => by
    have hfield := Field.field_statements h
    simp only [Field.wellNamed, Bool.and_eq_true, bne_iff_ne, ne_eq] at h
    have hitem := ItemType.entries_readAs false item h.2
    rw [Field.toJson, field_fieldRecord hitem rfl h.1]
    exact congrArg Checked.ofRule hfield
  | ⟨name, required, .array item elementSelf, isSelf, defaultValue, isPrimary, isUnique,
      description⟩, h => by
    have hfield := Field.field_statements h
    simp only [Field.wellNamed, Bool.and_eq_true, bne_iff_ne, ne_eq] at h
    have helement : Check.element? (item.entries.elementRecord elementSelf) =
        .ok (some (item, elementSelf)) := by
      have hitem := element?_elementRecord (ItemType.entries_readAs elementSelf item h.2)
      rw [ItemType.item_statements h.2] at hitem
      cases item <;> exact hitem
    -- An array states nothing about a single item.
    have hnone : ItemEntries.ReadAs {} ⟨none, none, none, none, none, false⟩ :=
      ⟨rfl, rfl, rfl, rfl, rfl⟩
    rw [Field.toJson, field_fieldRecord hnone helement h.1]
    exact congrArg Checked.ofRule hfield

/-- The records of fields are read back, whatever number they are counted from. -/
theorem fieldsFrom_toJson : ∀ fields : List Field, fieldsWellNamed fields = true → ∀ n,
    Check.fieldsFrom n (fieldsToJson fields) = .ok fields
  | [], _, _ => by simp [fieldsToJson, Check.fieldsFrom]
  | f :: fields, h, n => by
    simp only [fieldsWellNamed, Bool.and_eq_true] at h
    rw [fieldsToJson, Check.fieldsFrom, Field.check_toJson f h.1, fieldsFrom_toJson fields h.2]
    rfl

end

/-- A well-named model comes back as it is. -/
theorem Model.renormalize_wellNamed {m : Model} (h : m.WellNamed) : m.renormalize = .ok m := by
  have hfields : Check.modelFields (.arr (fieldsToJson m.fields)) = .ok m.fields := by
    have hnames := (repeatedNames?_eq_none_iff "model").mpr h.distinct
    simp [Check.modelFields, fieldsFrom_toJson m.fields h.fields, Checked.keeping, Checked.andThen,
      hnames]
  have hkind := Check.literal_sourceKind_iff.mpr (rfl : m.sourceKind.text = m.sourceKind.text)
  simp [Model.renormalize, Model.toJson, Check.model, Check.required, Check.optional, Json.lookup,
    Check.name_ok h.named, hfields, hkind, Check.text?_ofText?, Check.also, Check.noOthers,
    Checked.map, Checked.seq]

/-! ## Normalized models -/

theorem RawField.item_wellNamed (raw : RawField) {fields : List Field}
    (hnodup : (fields.map (·.name)).Nodup) (hfields : ∀ f ∈ fields, f.wellNamed = true) :
    (raw.item fields).wellNamed = true := by
  have hinner := fieldsWellNamed_iff.mpr hfields
  unfold RawField.item
  split <;> simp [ItemType.wellNamed, hnodup, hinner]

theorem Field.ofRaw_wellNamed (raw : RawField) {name : String} {fields : List Field} (hname : name ≠ "")
    (hnodup : (fields.map (·.name)).Nodup) (hfields : ∀ f ∈ fields, f.wellNamed = true) :
    (Field.ofRaw raw name fields).wellNamed = true := by
  have hitem := raw.item_wellNamed hnodup hfields
  unfold Field.ofRaw
  cases raw.isArray.getD false <;> simpa [Field.wellNamed, hname] using hitem

/-- A normalized model is well named. -/
theorem Model.ofRaw_wellNamed {raw : RawModel} {m : Model} (h : Model.ofRaw raw = .ok m) :
    m.WellNamed := by
  obtain ⟨hname, hne, -⟩ := Model.ofRaw_ok h
  obtain ⟨hnodup, hfields⟩ :=
    Model.ofRaw_induct (fun raw _ _ hname => Field.ofRaw_wellNamed raw hname) h
  exact ⟨hname ▸ hne, hnodup, fieldsWellNamed_iff.mpr hfields⟩

theorem names_markAll (owner : String) (fields : List Field) :
    (markAll owner fields).map (·.name) = fields.map (·.name) := by
  induction fields with
  | nil => rfl
  | cons f fields ih =>
    obtain ⟨name, required, shape, _, _, _, _, _⟩ := f
    cases shape <;> simp only [markAll, Field.markSelf, List.map_cons, ih]

mutual

theorem ItemType.wellNamed_markSelf (owner : String) :
    ∀ item : ItemType, (item.markSelf owner).wellNamed = item.wellNamed
  | .scalar _ => by rw [ItemType.markSelf]
  | .enum _ _ => by rw [ItemType.markSelf]
  | .reference _ => by rw [ItemType.markSelf]
  | .object fields => by
    rw [ItemType.markSelf, ItemType.wellNamed, ItemType.wellNamed, names_markAll,
      fieldsWellNamed_markAll owner fields]

theorem fieldsWellNamed_markAll (owner : String) :
    ∀ fields : List Field, fieldsWellNamed (markAll owner fields) = fieldsWellNamed fields
  | [] => rfl
  | ⟨_, _, .single item, _, _, _, _, _⟩ :: fields => by
    simp only [markAll, Field.markSelf, fieldsWellNamed, Field.wellNamed,
      ItemType.wellNamed_markSelf owner item, fieldsWellNamed_markAll owner fields]
  | ⟨_, _, .array item _, _, _, _, _, _⟩ :: fields => by
    simp only [markAll, Field.markSelf, fieldsWellNamed, Field.wellNamed,
      ItemType.wellNamed_markSelf owner item, fieldsWellNamed_markAll owner fields]

end

theorem Model.WellNamed.markSelf {m : Model} (h : m.WellNamed) : m.markSelf.WellNamed := by
  refine ⟨h.named, ?_, ?_⟩
  · rw [Model.fieldNames, Model.markSelf, names_markAll]
    exact h.distinct
  · rw [Model.markSelf, fieldsWellNamed_markAll]
    exact h.fields

/-- A normalized model comes back as it is when it is normalized again, and so does the model with its
references to itself marked. -/
theorem renormalize_ofRaw {raw : RawModel} {m : Model} (h : Model.ofRaw raw = .ok m) :
    m.renormalize = .ok m ∧ m.markSelf.renormalize = .ok m.markSelf :=
  have hnamed := Model.ofRaw_wellNamed h
  ⟨Model.renormalize_wellNamed hnamed, Model.renormalize_wellNamed hnamed.markSelf⟩

/-- A raw model that refers to itself, once inside the objects of an array. -/
def rawFolder : RawModel :=
  { name := "Folder", sourceKind := "mongoose", sourcePath := some "folder.schema.json"
    fields := [{ name := some "parent", target := some "Folder", required := some false },
      { name := some "entries", isArray := some true, nested := some [
        { name := some "kind", enumValues := some ["file", "folder"], defaultValue := some "\"file\"" },
        { name := some "folders", isArray := some true, target := some "Folder" },
        { name := some "size", scalar := some .number, isUnique := some false }] }] }

/-- The model without marks, or with the given ones at the two references. -/
def folder (parentMark elementMark : Bool) : Model :=
  { name := "Folder", sourceKind := .mongoose, sourcePath := some "folder.schema.json"
    description := none
    fields := [⟨"parent", false, .single (.reference "Folder"), parentMark, none, false, false, none⟩,
      ⟨"entries", true, .array (.object [
        ⟨"kind", true, .single (.enum none ["file", "folder"]), false, some "\"file\"", false, false,
          none⟩,
        ⟨"folders", true, .array (.reference "Folder") elementMark, false, none, false, false, none⟩,
        ⟨"size", true, .single (.scalar .number), false, none, false, false, none⟩]) false, false, none,
          false, false, none⟩] }

theorem renormalize_ofRaw_folder : Model.ofRaw rawFolder = .ok (folder false false) ∧
    (folder false false).renormalize = .ok (folder false false) ∧
    (folder true true).renormalize = .ok (folder true true) := by
  have hraw : Model.ofRaw rawFolder = .ok (folder false false) := rfl
  have hmarked : (folder false false).markSelf = folder true true := by
    simp [folder, Model.markSelf, markAll, Field.markSelf, ItemType.markSelf, ItemType.refersTo]
  exact ⟨hraw, (renormalize_ofRaw hraw).1, hmarked ▸ (renormalize_ofRaw hraw).2⟩

end SchemaTypes
