import SchemaTypes.Mongoose.Module
import SchemaTypes.Proofs.Json.DistinctKeys
import SchemaTypes.Proofs.Mongoose.Attributes
import SchemaTypes.Proofs.Prisma.EnumValues
import SchemaTypes.Proofs.Prisma.Joining

/-!
# The shapes of fields that sources yield

A source gives each raw field exactly one shape. The type of a Prisma field is a scalar, an enum or a model,
and nothing is nested in it; a definition of a Mongoose field map makes one item, whatever value stands
there, and the fields of an embedded document are those of a field map again. So all that can be wrong with
the fields are names: a Prisma model may have two fields of one name, and a field map may have an empty key.

Results:
* `Prisma.Schema.isName`: the names of the models and enums of a Prisma schema.
* `Prisma.resolve_wellShaped`, `Prisma.Schema.model_wellShaped`: the raw fields of a Prisma schema.
* `Mongoose.fieldOf_wellShaped`, `Mongoose.fieldsOfMap_wellShaped`: those of a field map.
* `Mongoose.Contract.fields_of_check`, `Mongoose.Contract.exists_check_of_ofText`: the field maps of a
  contract, and the value it is read from.
* `sources_wellShaped`: which raw models can be normalized.
-/

namespace SchemaTypes

/-! ## Prisma -/

namespace Prisma

variable {enums : List RawEnum} {sources : List Source}

theorem word?_ne_nil {cs word rest : List Char} (h : word? cs = some (word, rest)) : word ≠ [] := by
  unfold word? at h
  split at h
  · simp at h
  · rename_i hne
    rw [← (Prod.mk.inj (Option.some.inj h)).1]
    exact hne

theorem ofContent_name_ne {text : List Char} {description : Option String} {f : FieldLine}
    (h : FieldLine.ofContent text description = .ok f) : f.name ≠ "" := by
  unfold FieldLine.ofContent at h
  dsimp only at h
  split at h
  · simp at h
  · rename_i name typeName rest hname
    have hne : name ≠ [] := by
      simp only [nameAndType?, bind, Option.bind_eq_some_iff] at hname
      obtain ⟨⟨word, after⟩, hword, hname⟩ := hname
      dsimp only at hname
      split at hname
      · obtain ⟨_, -, hname⟩ := Option.bind_eq_some_iff.mp hname
        exact (Prod.mk.inj (Option.some.inj hname)).1 ▸ word?_ne_nil hword
      · simp at hname
    split at h
    · simp at h
    · split at h
      · simp at h
      · obtain rfl := Except.ok.inj h
        simpa using hne

/-- A field that a line declares has a name. -/
theorem ofLine_name_ne {line : List Char} {description : Option String} {f : FieldLine}
    (h : FieldLine.ofLine line description = .ok (some f)) : f.name ≠ "" := by
  unfold FieldLine.ofLine at h
  split at h
  · simp at h
  · rename_i text _
    obtain ⟨found, hcontent, hfound⟩ := map_eq_ok_iff.mp h
    exact Option.some.inj hfound ▸ ofContent_name_ne hcontent

/-- The raw field of a line has a name and one shape, and nothing is nested in it. -/
theorem resolve_wellShaped (enums : List RawEnum) (line : FieldLine) :
    (resolve enums line).IsWellShaped ∧ (resolve enums line).nested = none ∧
      (resolve enums line).name = some line.name := by
  have hflat {raw : RawField} (hnamed : raw.name.isSome) (hshape : raw.shapeCount = 1)
      (htyped : raw.illTyped = false) (hnested : raw.nested = none) : raw.IsWellShaped :=
    ⟨hnamed, hshape, htyped, by simp [hnested]⟩
  unfold resolve
  split
  · exact ⟨hflat rfl rfl rfl rfl, rfl, rfl⟩
  · split
    · exact ⟨hflat rfl rfl rfl rfl, rfl, rfl⟩
    · split <;> exact ⟨hflat rfl rfl rfl rfl, rfl, rfl⟩

theorem nameAndBrace?_isName {cs rest : List Char} {name : String}
    (h : nameAndBrace? cs = some (name, rest)) : Text.isName name = true := by
  simp only [nameAndBrace?] at h
  split at h
  · simp at h
  · rename_i hne
    split at h
    · rw [← (Prod.mk.inj (Option.some.inj h)).1, Text.isName_iff, String.toList_ofList]
      exact ⟨by simpa using hne, List.all_eq_true.mp List.all_takeWhile⟩
    · simp at h

theorem headerHere?_isName {before cs : List Char} {h : Header}
    (hhere : headerHere? before cs = some h) : Text.isName h.name = true := by
  unfold headerHere? at hhere
  split at hhere
  · obtain ⟨keyword, -, hkeyword⟩ := List.exists_of_findSome?_eq_some hhere
    simp only [bind, Option.bind_eq_some_iff, pure, Option.some.injEq] at hkeyword
    obtain ⟨_, -, _, -, ⟨name, rest⟩, hname, rfl⟩ := hkeyword
    exact nameAndBrace?_isName hname
  · simp at hhere

/-- A block that is found has a name. -/
theorem isName_of_mem_scan {path : Option String} {text : List Char} {b : Block}
    (h : .block b ∈ scan path text) : Text.isName b.name = true := by
  obtain ⟨above, rest, header, hhere, -, hb⟩ := exists_header_of_mem h
  have hname : b.name = header.name := by
    cases hclosing : closing? braces (braces.opening :: header.rest) with
    | none => simp [found_of_unclosed hclosing] at hb
    | some n =>
      simp only [Header.found, hclosing, Found.block.injEq] at hb
      rw [hb]
  rw [hname]
  exact headerHere?_isName hhere

theorem isName_of_mem_scanAll {b : Block} (h : b ∈ (scanAll sources).filterMap Found.block?) :
    Text.isName b.name = true := by
  obtain ⟨f, hf, hblock⟩ := List.mem_filterMap.mp h
  obtain ⟨source, -, hscan⟩ := List.mem_flatMap.mp hf
  cases f with
  | block found =>
    obtain rfl := Option.some.inj hblock
    exact isName_of_mem_scan hscan
  | unclosed => simp [Found.block?] at hblock

/-- The models and enums of a schema have the names of blocks. -/
theorem Schema.isName (sources : List Source) :
    (∀ m ∈ (Schema.ofSources sources).models, Text.isName m.name = true) ∧
      ∀ e ∈ (Schema.ofSources sources).enums, Text.isName e.name = true := by
  constructor
  · intro m hm
    obtain ⟨b, hb, hmodel⟩ := List.mem_map.mp (mem_partition_ok.mp hm)
    have hname := isName_of_mem_scanAll (List.mem_of_mem_filter hb)
    unfold modelOfBlock at hmodel
    split at hmodel
    · simp at hmodel
    · exact Except.ok.inj hmodel ▸ hname
  · intro e he
    obtain ⟨b, hb, henum⟩ := List.mem_map.mp (mem_partition_ok.mp he)
    have hname := isName_of_mem_scanAll (List.mem_of_mem_filter hb)
    unfold enumOfBlock at henum
    split at henum
    · simp at henum
    · simp at henum
    · exact Except.ok.inj henum ▸ hname

/-- What a model of a schema is: it has the name of a block, and its fields are those of lines. -/
theorem Schema.model_wellShaped {m : RawModel} (hm : m ∈ (Schema.ofSources sources).models) :
    m.IsLabelled ∧ ∀ raw ∈ m.fields, raw.IsWellShaped ∧ raw.nested = none ∧ raw.name ≠ some "" := by
  have hname : m.name ≠ "" := by
    rintro hempty
    exact absurd ((Schema.isName sources).1 m hm) (by rw [hempty]; decide)
  obtain ⟨b, hb, hmodel⟩ := List.mem_map.mp (mem_partition_ok.mp hm)
  unfold modelOfBlock at hmodel
  split at hmodel
  · simp at hmodel
  · rename_i fields hfields
    obtain rfl := Except.ok.inj hmodel
    refine ⟨⟨hname, .prisma, rfl⟩, fun raw hraw => ?_⟩
    obtain ⟨line, description, f, hline, rfl⟩ := mem_fieldsOfLines hfields raw hraw
    obtain ⟨hshape, hnested, hname⟩ := resolve_wellShaped _ f
    refine ⟨hshape, hnested, ?_⟩
    rw [hname]
    simpa using ofLine_name_ne hline

/-- A model of a schema can be normalized exactly if its fields have different names. -/
theorem Schema.ofRaw_ok_iff {m : RawModel} (hm : m ∈ (Schema.ofSources sources).models) :
    (∃ model, Model.ofRaw m = .ok model) ↔ (m.fields.map (·.name)).Nodup := by
  obtain ⟨hlabelled, hfields⟩ := Schema.model_wellShaped hm
  have hflat : ∀ r ∈ allNested m.fields, r ∈ m.fields := by
    intro r hr
    obtain ⟨raw, hraw, hr⟩ := mem_allNested.mp hr
    rcases mem_withNested.mp hr with rfl | ⟨raws, hraws, -⟩
    · exact hraw
    · simp [(hfields raw hraw).2.1] at hraws
  rw [Model.ofRaw_ok_iff, fieldsNormalize_iff fun r hr => (hfields r (hflat r hr)).1]
  exact ⟨fun h => h.2.1, fun h => ⟨hlabelled, h, fun r hr => (hfields r (hflat r hr)).2.2⟩⟩

end Prisma

/-! ## Mongoose -/

namespace Mongoose

variable {required : List String} {path : String} {entries : Entries}

/-- The fields of an item that is an embedded document. -/
def Item.fields? : Item → Option (List RawField)
  | .document fields => some fields
  | _ => none

/-- Whether the fields of an item have one shape each at every depth, and different names side by side. -/
def Item.IsWellShaped (item : Item) : Prop :=
  ∀ fields, item.fields? = some fields →
    (fields.map (·.name)).Nodup ∧ ∀ r ∈ allNested fields, r.IsWellShaped

/-- The raw field of a definition has the name of its key and the shape of its item. -/
theorem fieldOf_shape (required : List String) (path name : String) (definition : Json)
    (d : Description) :
    (fieldOf required path name definition d).name = some name ∧
      (fieldOf required path name definition d).shapeCount = 1 ∧
      (fieldOf required path name definition d).illTyped = false ∧
      (fieldOf required path name definition d).nested = d.item.fields? := by
  obtain ⟨isArray, item⟩ := d
  unfold fieldOf
  cases item <;> dsimp only <;> split <;> (try split) <;> exact ⟨rfl, rfl, rfl, rfl⟩

theorem fieldOf_wellShaped {name : String} {definition : Json} {d : Description}
    (h : d.item.IsWellShaped) :
    ∀ r ∈ (fieldOf required path name definition d).withNested, r.IsWellShaped := by
  obtain ⟨hname, hshape, htyped, hnested⟩ := fieldOf_shape required path name definition d
  intro r hr
  rcases mem_withNested.mp hr with rfl | ⟨fields, hfields, inner, hinner, hr⟩
  · exact ⟨by simp [hname], hshape, htyped, fun fields hfields => (h fields (hnested ▸ hfields)).1⟩
  · exact (h fields (hnested ▸ hfields)).2 r (mem_allNested.mpr ⟨inner, hinner, hr⟩)

theorem names_fieldsOfMap_nodup (h : (entries.map (·.1)).Nodup) (required : List String)
    (path : String) : ((fieldsOfMap required path entries).map (·.name)).Nodup := by
  have hkeys : (entries.map fun e => some e.1).Nodup := by
    have hmap : entries.map (fun e => some e.1) = (entries.map (·.1)).map some := by simp
    rw [hmap]
    exact h.map fun _ _ heq => Option.some.inj heq
  rw [names_fieldsOfMap]
  exact hkeys.sublist (List.filter_sublist.map _)

theorem unknown_wellShaped : Item.unknown.IsWellShaped := by
  simp [Item.IsWellShaped, Item.unknown, Item.fields?]

theorem ofDescriptor?_wellShaped {item : Item} (h : Item.ofDescriptor? entries = some item) :
    item.IsWellShaped := by
  have hflat : item.fields? = none := by
    unfold Item.ofDescriptor? at h
    split at h
    · obtain ⟨values, -, rfl⟩ := Option.map_eq_some_iff.mp h
      rfl
    · obtain rfl := Option.some.inj h
      rfl
    · obtain ⟨values, -, rfl⟩ := Option.map_eq_some_iff.mp h
      rfl
  simp [Item.IsWellShaped, hflat]

mutual

/-- Whatever value stands as a definition, its item is well-shaped. -/
theorem describe_wellShaped (required : List String) (inArray : Bool) (path : String) :
    ∀ v : Json, v.hasDistinctKeys = true → (describe required inArray path v).item.IsWellShaped
  | .str token, _ => by
    simp [describe, Item.IsWellShaped, Item.ofConstructor, Item.fields?]
  | .arr items, h => by
    rw [describe]
    split
    · exact unknown_wellShaped
    · exact describeFirst_wellShaped required path items (Json.hasDistinctKeys_arr.mp h)
  | .obj entries, h => by
    obtain ⟨hnodup, hvalues⟩ := Json.hasDistinctKeys_obj.mp h
    rw [describe]
    split
    · split
      · rename_i item hitem
        exact ofDescriptor?_wellShaped hitem
      · exact describeType_wellShaped required inArray path entries hvalues
    · intro fields hfields
      obtain rfl := Option.some.inj hfields
      exact ⟨names_fieldsOfMap_nodup hnodup required path,
        fieldsOfMap_wellShaped required path entries hvalues⟩
  | .null, _ => by simpa [describe] using unknown_wellShaped
  | .bool _, _ => by simpa [describe] using unknown_wellShaped
  | .int _, _ => by simpa [describe] using unknown_wellShaped
  | .float _, _ => by simpa [describe] using unknown_wellShaped

theorem describeFirst_wellShaped (required : List String) (path : String) :
    ∀ items : List Json, (∀ v ∈ items, v.hasDistinctKeys = true) →
      (describeFirst required path items).IsWellShaped
  | [], _ => unknown_wellShaped
  | v :: items, h => by
    rw [describeFirst]
    exact describe_wellShaped required true path v (h v List.mem_cons_self)

theorem describeType_wellShaped (required : List String) (inArray : Bool) (path : String) :
    ∀ entries : Entries, (∀ e ∈ entries, e.2.hasDistinctKeys = true) →
      (describeType required inArray path entries).item.IsWellShaped
  | [], _ => unknown_wellShaped
  | (key, v) :: entries, h => by
    rw [describeType]
    split
    · exact describe_wellShaped required inArray path v (h (key, v) List.mem_cons_self)
    · exact describeType_wellShaped required inArray path entries fun e he =>
        h e (List.mem_cons_of_mem _ he)

/-- The fields of a field map have one shape each at every depth. -/
theorem fieldsOfMap_wellShaped (required : List String) (path : String) :
    ∀ entries : Entries, (∀ e ∈ entries, e.2.hasDistinctKeys = true) →
      ∀ r ∈ allNested (fieldsOfMap required path entries), r.IsWellShaped
  | [], _ => by simp [fieldsOfMap, allNested]
  | (name, v) :: entries, h => by
    have hlater := fieldsOfMap_wellShaped required path entries fun e he =>
      h e (List.mem_cons_of_mem _ he)
    have hitem := describe_wellShaped required false (pathBelow path name) v
      (h (name, v) List.mem_cons_self)
    rw [fieldsOfMap]
    split
    · exact hlater
    · intro r hr
      rw [allNested, List.mem_append] at hr
      exact hr.elim (fieldOf_wellShaped hitem r) (hlater r)

end

/-! ### Contracts -/

section Check

variable {α : Type}

theorem itemsFrom_ok {check : Json → Checked α} {n : Nat} {vs : List Json} {xs : List α}
    (h : Check.itemsFrom check n vs = .ok xs) : ∀ x ∈ xs, ∃ v ∈ vs, check v = .ok x := by
  induction vs generalizing n xs with
  | nil => simp [← Checked.ok.inj h]
  | cons v vs ih =>
    rw [Check.itemsFrom, Checked.seq_ok_iff] at h
    obtain ⟨_, later, hcons, hlater, rfl⟩ := h
    obtain ⟨first, hfirst, rfl⟩ := Checked.map_ok_iff.mp hcons
    have hv := Checked.below_ok_iff.mp hfirst
    refine List.forall_mem_cons.mpr ⟨⟨v, List.mem_cons_self, hv⟩, fun x hx => ?_⟩
    obtain ⟨w, hw, hx⟩ := ih hlater x hx
    exact ⟨w, List.mem_cons_of_mem v hw, hx⟩

theorem items_ok {other : FaultKind} {check : Json → Checked α} {v : Json} {xs : List α}
    (h : Check.items other check v = .ok xs) :
    ∃ vs, v = .arr vs ∧ ∀ x ∈ xs, ∃ w ∈ vs, check w = .ok x := by
  unfold Check.items at h
  split at h
  · exact ⟨_, rfl, itemsFrom_ok h⟩
  · simp [Checked.fault] at h

theorem required_ok {key : String} {check : Json → Checked α} {x : α}
    (h : Check.required key check entries = .ok x) :
    ∃ v, Json.lookup key entries = some v ∧ check v = .ok x := by
  unfold Check.required at h
  split at h
  · exact ⟨_, ‹_›, Checked.below_ok_iff.mp h⟩
  · simp at h

end Check

theorem Contract.model_ok {v : Json} {m : ContractModel} (hkeys : v.hasDistinctKeys = true)
    (h : Contract.model v = .ok m) : (Json.obj m.fields).hasDistinctKeys = true := by
  unfold Contract.model at h
  split at h
  · change Checked.seq (Checked.seq (Checked.map _ _) _) _ = _ at h
    simp only [Checked.seq_ok_iff, Checked.map_ok_iff] at h
    obtain ⟨_, paths, ⟨_, fields, ⟨name, -, rfl⟩, hfields, rfl⟩, -, rfl⟩ := h
    obtain ⟨v, hv, hmapping⟩ := required_ok hfields
    unfold Contract.mapping at hmapping
    split at hmapping
    · obtain rfl := Checked.ok.inj hmapping
      exact Json.hasDistinctKeys_of_lookup hkeys hv
    · simp [Checked.fault] at hmapping
  · simp [Checked.fault] at h

/-- The field maps of a contract are part of its value. -/
theorem Contract.fields_of_check {doc : Json} {c : Contract} (hkeys : doc.hasDistinctKeys = true)
    (h : Contract.check doc = .ok c) :
    ∀ m ∈ c.models, (Json.obj m.fields).hasDistinctKeys = true := by
  unfold Contract.check at h
  split at h
  · dsimp only [Check.also] at h
    change Checked.seq (Checked.map _ (Checked.seq (Checked.seq (Checked.map _ _) _) _)) _ = _ at h
    simp only [Checked.seq_ok_iff, Checked.map_ok_iff] at h
    obtain ⟨_, _, ⟨_, ⟨_, models, ⟨_, source, ⟨_, -, rfl⟩, -, rfl⟩, hmodels, rfl⟩, rfl⟩, -, rfl⟩ := h
    obtain ⟨v, hv, hitems⟩ := required_ok hmodels
    obtain ⟨vs, rfl, hmodel⟩ := items_ok hitems
    have hvs := Json.hasDistinctKeys_arr.mp (Json.hasDistinctKeys_of_lookup hkeys hv)
    intro m hm
    obtain ⟨w, hw, hm⟩ := hmodel m hm
    exact Contract.model_ok (hvs w hw) hm
  · simp [Checked.fault] at h

/-- The value that a contract is read from has distinct keys, whatever the text. -/
theorem Contract.exists_check_of_ofText {text : String} {c : Contract} (h : Contract.ofText text = .ok c) :
    ∃ doc, Json.hasDistinctKeys doc = true ∧ Contract.check doc = .ok c := by
  unfold Contract.ofText at h
  split at h
  · exact ⟨_, Json.read?_hasDistinctKeys ‹_›, h⟩
  · simp [Checked.fault] at h

/-- A named model of a contract can be normalized exactly if no field has the empty name at any depth. -/
theorem Contract.ofRaw_ok_iff {doc : Json} {c : Contract} (hkeys : doc.hasDistinctKeys = true)
    (h : Contract.check doc = .ok c) (path : Path) {m : RawModel} (hm : m ∈ c.raw path)
    (hname : m.name ≠ "") :
    (∃ model, Model.ofRaw m = .ok model) ↔ ∀ r ∈ allNested m.fields, r.name ≠ some "" := by
  obtain ⟨contractModel, hmodel, rfl⟩ := List.mem_map.mp hm
  obtain ⟨hnodup, hvalues⟩ :=
    Json.hasDistinctKeys_obj.mp (Contract.fields_of_check hkeys h contractModel hmodel)
  have hlabelled : (contractModel.raw path).IsLabelled := ⟨hname, .mongoose, rfl⟩
  have hshaped := fieldsOfMap_wellShaped contractModel.requiredPaths "" contractModel.fields hvalues
  have hnames := names_fieldsOfMap_nodup hnodup contractModel.requiredPaths ""
  rw [Model.ofRaw_ok_iff, fieldsNormalize_iff hshaped]
  exact ⟨fun h => h.2.2, fun h => ⟨hlabelled, hnames, h⟩⟩

end Mongoose

/-! ## Both sources -/

/-- The sources yield fields of one shape each. So a model of a Prisma schema can be normalized exactly if
its fields have different names, and a named model of a contract exactly if no field has the empty name at
any depth. -/
theorem sources_wellShaped :
    (∀ sources, ∀ m ∈ (Prisma.Schema.ofSources sources).models,
      ((∃ model, Model.ofRaw m = .ok model) ↔ (m.fields.map (·.name)).Nodup)) ∧
    ∀ doc c path, Json.hasDistinctKeys doc = true → Mongoose.Contract.check doc = .ok c →
      ∀ m ∈ c.raw path, m.name ≠ "" →
        ((∃ model, Model.ofRaw m = .ok model) ↔ ∀ r ∈ allNested m.fields, r.name ≠ some "") :=
  ⟨fun _ _ hm => Prisma.Schema.ofRaw_ok_iff hm,
    fun _ _ path hkeys hcheck _ hm hname =>
      Mongoose.Contract.ofRaw_ok_iff hkeys hcheck path hm hname⟩

/-- A contract of one model with an empty key, in an embedded document behind an array. -/
def emptyKeyDocument : Json :=
  .obj [("models", .arr [.obj [("name", .str "User"),
    ("fields", .obj [("tags", .arr [.obj [("", .str "String")]])])]])]

theorem sources_wellShaped_emptyKey :
    (∃ m ∈ (Prisma.Schema.ofSources [Prisma.userSource]).models, ∃ model, Model.ofRaw m = .ok model) ∧
    emptyKeyDocument.hasDistinctKeys = true ∧
    ∃ c, Mongoose.Contract.check emptyKeyDocument = .ok c ∧ ∃ m ∈ c.raw ⟨"", ["user.schema.json"]⟩,
      m.name ≠ "" ∧ ¬∃ model, Model.ofRaw m = .ok model := by
  have huser : (Prisma.Schema.ofSources [Prisma.userSource]).models ≠ [] := by
    rw [← List.isEmpty_eq_false_iff]
    decide +kernel
  have hnodup : ∀ m ∈ (Prisma.Schema.ofSources [Prisma.userSource]).models,
      (m.fields.map (·.name)).Nodup := by decide +kernel
  obtain ⟨m, hm⟩ := List.exists_mem_of_ne_nil _ huser
  have hkeys : emptyKeyDocument.hasDistinctKeys = true := by decide +kernel
  have hcheck : Mongoose.Contract.check emptyKeyDocument =
      .ok ⟨none, [⟨some "User", [("tags", .arr [.obj [("", .str "String")]])], []⟩]⟩ := rfl
  refine ⟨⟨m, hm, (sources_wellShaped.1 _ m hm).mpr (hnodup m hm)⟩,
    hkeys, _, hcheck, _, List.mem_cons_self, by decide, fun hnormal => ?_⟩
  have hnames := (sources_wellShaped.2 _ _ _ hkeys hcheck _ List.mem_cons_self (by decide)).mp hnormal
  -- The field with the empty key is the one field of the document below `tags`.
  refine hnames _ (mem_allNested.mpr ⟨_, List.mem_cons_self, mem_withNested.mpr (Or.inr
    ⟨_, (Mongoose.fieldOf_shape ..).2.2.2, _, List.mem_cons_self, mem_withNested.mpr (Or.inl rfl)⟩)⟩) ?_
  exact (Mongoose.fieldOf_shape ..).1

end SchemaTypes
