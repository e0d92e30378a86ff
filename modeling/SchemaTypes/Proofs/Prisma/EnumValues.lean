import SchemaTypes.Proofs.Model.EnumTable
import SchemaTypes.Proofs.Model.Shapes
import SchemaTypes.Prisma.Schema

/-!
# Fields and the enums that they name

A field whose type is an enum keeps the values of the first enum block of that name that can be read,
while the enum itself is declared by the first one that is a definition, which a block with a value that
stands in it twice is not. So the values at a field are those of the declared enum exactly if none of
them is repeated.

Results:
* `resolve_isResolved`, `modelOfBlock_isResolved`: the values at a raw field.
* `enumUse_of_batch`: the values at a field of a batch.
* `find?_collect_of_first`: the first enum of a name is declared if its values are not repeated.
* `enumUse_eq_definition_iff`: where the values of a field and of the declared enum agree.
-/

namespace SchemaTypes

/-! ## Uses of enums -/

mutual

/-- The enums that an item names, each with the values at that place, in order. -/
def ItemType.enumUses : ItemType → List (String × List String)
  | .scalar _ => []
  | .enum none _ => []
  | .enum (some name) values => [(name, values)]
  | .reference _ => []
  | .object fields => enumUsesOf fields

/-- The enums that a shape names, each with the values at that place, in order. -/
def Shape.enumUses : Shape → List (String × List String)
  | .single item => item.enumUses
  | .array item _ => item.enumUses

/-- The enums that fields name, each with the values at that place, in order. -/
def enumUsesOf : List Field → List (String × List String)
  | [] => []
  | ⟨_, _, shape, _, _, _, _, _⟩ :: fields => shape.enumUses ++ enumUsesOf fields

end

theorem mem_enumUsesOf {fields : List Field} {use : String × List String} :
    use ∈ enumUsesOf fields ↔ ∃ f ∈ fields, use ∈ f.shape.enumUses := by
  induction fields with
  | nil => simp [enumUsesOf]
  | cons f fields ih =>
    obtain ⟨name, required, shape, isSelf, defaultValue, isPrimary, isUnique, description⟩ := f
    rw [enumUsesOf, List.mem_append, ih]
    simp

/-- A field without nested fields names an enum only if its raw field does. -/
theorem mem_enumUses_ofRaw {raw : RawField} (hflat : raw.nested = none) {name : String}
    {fields : List Field} {use : String × List String}
    (h : use ∈ (Field.ofRaw raw name fields).shape.enumUses) :
    raw.enumName = some use.1 ∧ raw.enumValues = some use.2 := by
  have hitem : use ∈ (raw.item fields).enumUses := by
    unfold Field.ofRaw at h
    cases hbool : raw.isArray.getD false <;> simpa [hbool, Shape.enumUses] using h
  cases hvalues : raw.enumValues with
  | some values =>
    cases hname : raw.enumName <;>
      simp_all [RawField.item, ItemType.enumUses]
  | none => cases htarget : raw.target <;> simp_all [RawField.item, ItemType.enumUses]

namespace Prisma

/-! ## Raw fields -/

variable {enums : List RawEnum}

/-- A raw field of a schema with the given enums: nothing is nested in it, and its values, if it has
some, are those of the first enum of the name that it gives. -/
structure IsResolved (enums : List RawEnum) (raw : RawField) : Prop where
  flat : raw.nested = none
  values : ∀ values, raw.enumValues = some values → ∃ d, raw.enumName = some d.name ∧
    enums.find? (fun e => e.name == d.name) = some d ∧ values = d.values

theorem resolve_isResolved (enums : List RawEnum) (line : FieldLine) :
    IsResolved enums (resolve enums line) := by
  unfold resolve
  split
  · exact ⟨rfl, by simp⟩
  · split
    · rename_i d hfound
      have hname : d.name = line.typeName := by simpa using List.find?_some hfound
      refine ⟨rfl, fun values hvalues => ⟨d, by rw [hname], by rwa [hname], ?_⟩⟩
      exact (Option.some.inj hvalues).symm
    · split <;> exact ⟨rfl, by simp⟩

/-- Every raw field of a model is that of a line. -/
theorem mem_fieldsOfLines {number : Nat} {docs : List String} {lines : List (List Char)}
    {fields : List RawField} (h : fieldsOfLines enums number docs lines = .ok fields) :
    ∀ raw ∈ fields, ∃ line description f,
      FieldLine.ofLine line description = .ok (some f) ∧ raw = resolve enums f := by
  induction lines generalizing number docs fields with
  | nil =>
    simp only [fieldsOfLines, Except.ok.injEq] at h
    simp [← h]
  | cons line lines ih =>
    rw [fieldsOfLines] at h
    split at h
    · exact ih h
    · split at h
      · simp at h
      · exact ih h
      · rename_i field hfield
        obtain ⟨later, hlater, rfl⟩ := map_eq_ok_iff.mp h
        exact List.forall_mem_cons.mpr ⟨⟨line, _, field, hfield, rfl⟩, ih hlater⟩

theorem modelOfBlock_isResolved {b : Block} {m : RawModel} (h : modelOfBlock enums b = .ok m) :
    ∀ raw ∈ m.fields, IsResolved enums raw := by
  unfold modelOfBlock at h
  split at h
  · simp at h
  · rename_i fields hfields
    obtain rfl := Except.ok.inj h
    intro raw hraw
    obtain ⟨line, description, f, -, rfl⟩ := mem_fieldsOfLines hfields raw hraw
    exact resolve_isResolved enums f

/-! ## Schemas -/

variable {sources : List Source}

theorem mem_partition_ok {α ε : Type} {xs : List (Except ε α)} {a : α} :
    a ∈ (partition xs).1 ↔ .ok a ∈ xs := by
  induction xs with
  | nil => simp [partition]
  | cons x xs ih => cases x <;> simp [partition, ih]

theorem Schema.model_isResolved {m : RawModel} (hm : m ∈ (Schema.ofSources sources).models) :
    ∀ raw ∈ m.fields, IsResolved (Schema.ofSources sources).enums raw := by
  obtain ⟨b, -, hb⟩ := List.mem_map.mp (mem_partition_ok.mp hm)
  exact modelOfBlock_isResolved hb

/-- An enum that can be read has values, and they are texts. -/
theorem Schema.enum_readable {d : RawEnum} (hd : d ∈ (Schema.ofSources sources).enums) :
    d.values ≠ [] ∧ d.illTyped = false := by
  obtain ⟨b, -, hb⟩ := List.mem_map.mp (mem_partition_ok.mp hd)
  unfold enumOfBlock at hb
  split at hb
  · simp at hb
  · simp at hb
  · rename_i values hne _
    obtain rfl := Except.ok.inj hb
    exact ⟨fun h => hne (by simpa using h), rfl⟩

/-- A declared enum that a field of a batch names stands at the field with the values of the first enum
of its name. -/
theorem enumUse_of_batch {models : List Model} {issues : List Issue}
    (h : Model.batch (Schema.ofSources sources).models = .ok (models, issues)) {m : Model}
    (hm : m ∈ models) {use : String × List String} (huse : use ∈ enumUsesOf m.fields) :
    ∃ d, (Schema.ofSources sources).enums.find? (fun e => e.name == use.1) = some d ∧
      use.2 = d.values := by
  obtain ⟨raw, hraw, hof⟩ := Model.mem_batch h hm
  obtain ⟨fields, hfields, hsiblings⟩ := bind_eq_ok_iff.mp (Model.ofRaw_ok hof).2.2
  rw [(siblings_ok_iff.mp hsiblings).2] at huse
  obtain ⟨f, hf, huse⟩ := mem_enumUsesOf.mp huse
  obtain ⟨rawField, hrawField, hnormal⟩ := mem_normalizeEach hfields hf
  have hresolved := Schema.model_isResolved hraw rawField hrawField
  obtain ⟨name, nested, rfl⟩ := normalizeField_ofRaw hnormal
  obtain ⟨hname, hvalues⟩ := mem_enumUses_ofRaw hresolved.flat huse
  obtain ⟨d, hd, hfound, heq⟩ := hresolved.values use.2 hvalues
  rw [hname, Option.some.injEq] at hd
  exact ⟨d, by rwa [hd], heq⟩

/-! ## Declared enums -/

/-- The first enum of a name is declared if it has values and none of them is repeated. -/
theorem find?_collect_of_first {raws : List RawEnum} {name : String} {d : RawEnum}
    (h : raws.find? (fun e => e.name == name) = some d) {e : EnumDefinition}
    (he : d.definition? = some e) : (EnumTable.collect raws).find? name = some e := by
  rw [EnumTable.find?_collect]
  induction raws with
  | nil => simp at h
  | cons raw raws ih =>
    by_cases hname : raw.name = name
    · obtain rfl : raw = d := by simpa [List.find?_cons, hname] using h
      have hfirst : e.name = name := (RawEnum.definition?_name he).trans hname
      simp [he, hfirst]
    · rw [List.find?_cons_of_neg (by simpa using hname)] at h
      cases hraw : raw.definition? with
      | none => simpa [List.filterMap_cons_none hraw] using ih h
      | some other =>
        have hother : other.name ≠ name := (RawEnum.definition?_name hraw).trans_ne hname
        rw [List.filterMap_cons_some hraw, List.find?_cons_of_neg (by simpa using hother)]
        exact ih h

/-- Where a field names an enum that is declared, the values at the field are those of the declaration
exactly if none of them is repeated. -/
theorem enumUse_eq_definition_iff {models : List Model} {issues : List Issue}
    (h : Model.batch (Schema.ofSources sources).models = .ok (models, issues)) :
    ∀ m ∈ models, ∀ use ∈ enumUsesOf m.fields,
      ∀ e ∈ (EnumTable.collect (Schema.ofSources sources).enums).enums, e.name = use.1 →
        (use.2 = e.values ↔ use.2.Nodup) := by
  intro m hm use huse e he hname
  obtain ⟨d, hfirst, hvalues⟩ := enumUse_of_batch h hm huse
  obtain ⟨raw, -, hraw⟩ := EnumTable.exists_definition_of_mem he
  obtain ⟨-, hnonempty, -, hnodup, hdefined⟩ := RawEnum.definition?_eq_some_iff.mp hraw
  constructor
  · intro heq
    rw [heq, hdefined]
    exact hnodup
  · intro hdistinct
    have hdname : d.name = use.1 := by simpa using List.find?_some hfirst
    obtain ⟨hsome, htyped⟩ := Schema.enum_readable (List.mem_of_find?_eq_some hfirst)
    have hnamed : d.name ≠ "" := by
      rw [hdname, ← hname, hdefined]
      exact hnonempty
    have hdef : d.definition? = some ⟨d.name, d.values, d.sourcePath⟩ :=
      RawEnum.definition?_eq_some_iff.mpr ⟨htyped, hnamed, hsome, hvalues ▸ hdistinct, rfl⟩
    have hkept := find?_collect_of_first hfirst hdef
    rw [← hname, EnumTable.find?_of_mem he, Option.some.injEq] at hkept
    rw [hvalues, hkept]

/-- A model with two fields that name an enum, once as a list. -/
def userSource : Source :=
  { path := none, text := "model User \x7b\n  role Role\n  more Role[]\n\x7d\n".toList }

/-- An enum with two values. -/
def roleSource (first second : String) : Source :=
  { path := none, text := ("enum Role \x7b\n  " ++ first ++ "\n  " ++ second ++ "\n\x7d\n").toList }

/-- The uses of enums in the models of a batch, if the batch goes through. -/
def enumUsesIn (sources : List Source) : Option (List (List (String × List String))) :=
  (Model.batch (Schema.ofSources sources).models).toOption.map fun batch =>
    batch.1.map fun m => enumUsesOf m.fields

/-- The enum is declared again with other values in a third source. -/
theorem enumUse_eq_definition_role :
    ∃ models issues m e, Model.batch (Schema.ofSources [userSource, roleSource "A" "B",
        roleSource "B" "A"]).models = .ok (models, issues) ∧ m ∈ models ∧
      ("Role", ["A", "B"]) ∈ enumUsesOf m.fields ∧
      e ∈ (EnumTable.collect (Schema.ofSources [userSource, roleSource "A" "B",
        roleSource "B" "A"]).enums).enums ∧ e.name = "Role" ∧
      (["A", "B"] = e.values ↔ ["A", "B"].Nodup) := by
  have huses : enumUsesIn [userSource, roleSource "A" "B", roleSource "B" "A"] =
      some [[("Role", ["A", "B"]), ("Role", ["A", "B"])]] := by decide +kernel
  have he : ⟨"Role", ["A", "B"], none⟩ ∈ (EnumTable.collect (Schema.ofSources [userSource,
      roleSource "A" "B", roleSource "B" "A"]).enums).enums := by decide +kernel
  unfold enumUsesIn at huses
  cases hbatch : Model.batch (Schema.ofSources [userSource, roleSource "A" "B",
      roleSource "B" "A"]).models with
  | error problem => simp [hbatch, Except.toOption] at huses
  | ok batch =>
    obtain ⟨models, issues⟩ := batch
    simp only [hbatch, Except.toOption, Option.map_some, Option.some.injEq] at huses
    obtain ⟨m, rfl, huse⟩ := List.map_eq_singleton_iff.mp huses
    have huse : ("Role", ["A", "B"]) ∈ enumUsesOf m.fields := by simp [huse]
    exact ⟨_, _, m, _, rfl, by simp, huse, he, rfl,
      enumUse_eq_definition_iff hbatch m (by simp) _ huse _ he rfl⟩

/-- The values at a field are not always those of the enum that is declared: the first enum of the name
repeats a value, and the second one is declared. -/
theorem enumUse_ne_definition :
    enumUsesIn [userSource, roleSource "A" "A", roleSource "B" "C"] =
        some [[("Role", ["A", "A"]), ("Role", ["A", "A"])]] ∧
      (EnumTable.collect (Schema.ofSources [userSource, roleSource "A" "A",
        roleSource "B" "C"]).enums).enums = [⟨"Role", ["B", "C"], none⟩] := by
  decide +kernel

end Prisma

end SchemaTypes
