import SchemaTypes.Proofs.Model.Naming

/-!
# The enums of a run

A raw enum is a definition if it has a name and at least one value, and no value stands in it twice. Of
the definitions of one name the first one is kept, whatever stands before it that is no definition.

Results:
* `definition?_eq_some_iff`: which raw enums are definitions.
* `find?_collect`: a table finds the first definition of a name.
* `find?_of_mem`: a table holds every name once.
-/

namespace SchemaTypes

/-! ## One enum -/

/-- The definition that a raw enum makes, if it makes one. -/
def RawEnum.definition? (raw : RawEnum) : Option EnumDefinition :=
  (EnumDefinition.ofRaw raw).toOption

theorem Check.repeatedValues?_eq_none_iff (values : List String) :
    Check.repeatedValues? values = none ↔ values.Nodup := by
  rw [← duplicates_eq_nil_iff, Check.repeatedValues?]
  cases duplicates values <;> simp

theorem Check.enumValues_ok_iff {values kept : List String} :
    Check.enumValues (.ok values) = .ok kept ↔ kept = values ∧ values ≠ [] ∧ values.Nodup := by
  rw [← Check.repeatedValues?_eq_none_iff]
  cases values with
  | nil => simp [Check.enumValues, Checked.andThen, Checked.keeping, Checked.fault]
  | cons value values =>
    simp only [Check.enumValues, Checked.andThen, Checked.keeping, List.isEmpty_cons,
      Bool.false_eq_true, if_false]
    cases Check.repeatedValues? (value :: values) <;> simp [Checked.fault, eq_comm]

theorem EnumDefinition.ofRaw_ok_iff {raw : RawEnum} {e : EnumDefinition} :
    EnumDefinition.ofRaw raw = .ok e ↔ raw.illTyped = false ∧ raw.name ≠ "" ∧ raw.values ≠ [] ∧
      raw.values.Nodup ∧ e = ⟨raw.name, raw.values, raw.sourcePath⟩ := by
  have hparts : EnumDefinition.ofRaw raw = .ok e ↔ ∃ name values,
      Checked.nonempty raw.name = .ok name ∧
      Check.enumValues (if raw.illTyped then .fault .notText else .ok raw.values) = .ok values ∧
      e = ⟨name, values, raw.sourcePath⟩ := by
    change Checked.seq (Checked.map _ _) _ = _ ↔ _
    simp only [Checked.seq_ok_iff, Checked.map_ok_iff, Checked.below_ok_iff]
    constructor
    · rintro ⟨_, values, ⟨name, hname, rfl⟩, hvalues, rfl⟩
      exact ⟨name, values, hname, hvalues, rfl⟩
    · rintro ⟨name, values, hname, hvalues, rfl⟩
      exact ⟨_, values, ⟨name, hname, rfl⟩, hvalues, rfl⟩
  rw [hparts]
  cases raw.illTyped with
  | true => simp [Check.enumValues, Checked.keeping, Checked.andThen, Checked.fault]
  | false =>
    simp only [Checked.nonempty_ok_iff, Bool.false_eq_true, if_false, Check.enumValues_ok_iff]
    constructor
    · rintro ⟨_, _, ⟨hname, rfl⟩, ⟨rfl, hne, hnodup⟩, rfl⟩
      exact ⟨trivial, hname, hne, hnodup, rfl⟩
    · rintro ⟨-, hname, hne, hnodup, rfl⟩
      exact ⟨_, _, ⟨hname, rfl⟩, ⟨rfl, hne, hnodup⟩, rfl⟩

/-- The raw enums that make a definition, and the definition that they make. -/
theorem RawEnum.definition?_eq_some_iff {raw : RawEnum} {e : EnumDefinition} :
    raw.definition? = some e ↔ raw.illTyped = false ∧ raw.name ≠ "" ∧ raw.values ≠ [] ∧
      raw.values.Nodup ∧ e = ⟨raw.name, raw.values, raw.sourcePath⟩ := by
  rw [← EnumDefinition.ofRaw_ok_iff, RawEnum.definition?]
  cases EnumDefinition.ofRaw raw <;> simp [Checked.toOption]

theorem RawEnum.definition?_name {raw : RawEnum} {e : EnumDefinition}
    (h : raw.definition? = some e) : e.name = raw.name := by
  obtain ⟨-, -, -, -, rfl⟩ := RawEnum.definition?_eq_some_iff.mp h
  rfl

namespace EnumTable

/-! ## One step -/

variable {t : EnumTable} {raw : RawEnum} {name : String}

theorem add_of_none (t : EnumTable) (h : raw.definition? = none) : (t.add raw).enums = t.enums := by
  unfold RawEnum.definition? at h
  unfold add
  cases hraw : EnumDefinition.ofRaw raw with
  | faulty faults => rfl
  | ok e => simp [hraw, Checked.toOption] at h

theorem add_of_some (t : EnumTable) {e : EnumDefinition} (h : raw.definition? = some e) :
    (t.add raw).enums = if (t.find? e.name).isSome then t.enums else t.enums ++ [e] := by
  have hraw := EnumDefinition.ofRaw_ok_iff.mpr (RawEnum.definition?_eq_some_iff.mp h)
  unfold add
  simp only [hraw]
  cases t.find? e.name with
  | none => rfl
  | some kept => by_cases hvalues : kept.values == e.values <;> simp [hvalues, report]

/-- A definition counts if no other of its name came before. -/
theorem find?_add (t : EnumTable) (raw : RawEnum) (name : String) :
    (t.add raw).find? name =
      (t.find? name).or (raw.definition?.toList.find? (·.name == name)) := by
  cases h : raw.definition? with
  | none => simp [find?, add_of_none t h]
  | some e =>
    have hadd := add_of_some t h
    by_cases hname : e.name = name
    · subst hname
      cases hfound : t.find? e.name with
      | none =>
        simp only [hfound, Option.isSome_none, Bool.false_eq_true, if_false] at hadd
        rw [find?, hadd, List.find?_append, ← find?, hfound]
        rfl
      | some kept =>
        simp only [hfound, Option.isSome_some, if_true] at hadd
        rw [find?, hadd, ← find?, hfound]
        rfl
    · have hother : [e].find? (·.name == name) = none := by simp [hname]
      have hsame : (t.add raw).find? name = t.find? name := by
        rw [find?, hadd]
        split
        · rfl
        · rw [List.find?_append, hother, Option.or_none, ← find?]
      rw [hsame, Option.toList_some, hother, Option.or_none]

theorem names_add_nodup (ht : (t.enums.map (·.name)).Nodup) (raw : RawEnum) :
    ((t.add raw).enums.map (·.name)).Nodup := by
  cases h : raw.definition? with
  | none => rwa [add_of_none t h]
  | some e =>
    rw [add_of_some t h]
    cases hfound : t.find? e.name with
    | some kept => simpa using ht
    | none =>
      have hnew : e.name ∉ t.enums.map (·.name) := by
        simpa [find?, List.find?_eq_none] using hfound
      simpa [List.nodup_append, ht] using hnew

/-! ## All enums -/

theorem find?_foldl_add (t : EnumTable) (raws : List RawEnum) (name : String) :
    (raws.foldl add t).find? name =
      (t.find? name).or ((raws.filterMap RawEnum.definition?).find? (·.name == name)) := by
  induction raws generalizing t with
  | nil => simp
  | cons raw raws ih =>
    have hcons : (raw :: raws).filterMap RawEnum.definition? =
        raw.definition?.toList ++ raws.filterMap RawEnum.definition? := by
      cases h : raw.definition? <;> simp [h]
    rw [List.foldl_cons, ih, find?_add, hcons, List.find?_append, Option.or_assoc]

/-- The table of a run finds the first definition of a name. -/
theorem find?_collect (raws : List RawEnum) (name : String) :
    (collect raws).find? name =
      (raws.filterMap RawEnum.definition?).find? (·.name == name) := by
  rw [collect, find?_foldl_add]
  rfl

theorem names_collect_nodup (raws : List RawEnum) : ((collect raws).enums.map (·.name)).Nodup := by
  have hfold (t : EnumTable) (ht : (t.enums.map (·.name)).Nodup) :
      ((raws.foldl add t).enums.map (·.name)).Nodup := by
    induction raws generalizing t with
    | nil => exact ht
    | cons raw raws ih => exact ih (t.add raw) (names_add_nodup ht raw)
  exact hfold {} (by simp)

/-- An enum of the table of a run is the one that is found by its name. -/
theorem find?_of_mem {raws : List RawEnum} {e : EnumDefinition} (h : e ∈ (collect raws).enums) :
    (collect raws).find? e.name = some e :=
  find?_key_of_mem (names_collect_nodup raws) h

/-- An enum of the table of a run is the definition that one of the raw enums makes. -/
theorem exists_definition_of_mem {raws : List RawEnum} {e : EnumDefinition}
    (h : e ∈ (collect raws).enums) : ∃ raw ∈ raws, raw.definition? = some e := by
  have hfound := find?_of_mem h
  rw [find?_collect] at hfound
  exact List.mem_filterMap.mp (List.mem_of_find?_eq_some hfound)

end EnumTable

end SchemaTypes
