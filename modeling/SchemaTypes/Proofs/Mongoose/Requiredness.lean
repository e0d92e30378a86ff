import SchemaTypes.Proofs.Mongoose.Attributes
import SchemaTypes.Proofs.Source.Shapes

/-!
# Required fields

Whether a field is required is said in two places: by the definition of the field, and by a set of paths. The
path of a field is made of the names that lead to it from the root, whatever stands between them. An embedded
document can be wrapped by types and arrays, and none of them adds to the path.

The fields of a field map stand at lists of names. What the definition at the end of such a list is, is said
by a search that follows the names through field maps and embedded documents and knows nothing of fields.
The descriptions of definitions keep to it: the fields that a definition describes are those of the document
that it embeds, at the same path (`describe_document`). The rest is induction over the names. Dots in names do
not matter to any of this, and of empty names only one at the root does, since it leaves no trace in the path.

Results:
* `exists_standsAt`: each field of a field map stands somewhere.
* `required_of_standsAt`: a field below some path.
* `describe_withoutRequired`: what is described for other sets of paths.
* `fieldsOfMap_required`: the fields of a field map.
-/

namespace SchemaTypes

/-! ## Places -/

/-- Whether the raw field stands at the end of the names. The first one names one of the fields, and each
other one a field inside the field before. -/
inductive StandsAt : List RawField → List String → RawField → Prop
  | here {fields : List RawField} {raw : RawField} {name : String} (hmem : raw ∈ fields)
      (hname : raw.name = some name) : StandsAt fields [name] raw
  | inside {fields inner : List RawField} {raw r : RawField} {name : String} {names : List String}
      (hmem : raw ∈ fields) (hname : raw.name = some name) (hnested : raw.nested = some inner)
      (h : StandsAt inner names r) : StandsAt fields (name :: names) r

theorem StandsAt.names_ne_nil {fields : List RawField} {names : List String} {raw : RawField}
    (h : StandsAt fields names raw) : names ≠ [] := by
  cases h <;> exact List.cons_ne_nil _ _

/-- Where all fields have names, each field at every depth stands somewhere. -/
theorem exists_standsAt {fields : List RawField} (hnamed : ∀ r ∈ allNested fields, r.name.isSome)
    {r : RawField} (h : r ∈ allNested fields) : ∃ names, StandsAt fields names r := by
  obtain ⟨raw, hmem, hr⟩ := mem_allNested.mp h
  have hself : raw ∈ allNested fields := mem_allNested.mpr ⟨raw, hmem, mem_withNested.mpr (.inl rfl)⟩
  obtain ⟨name, hname⟩ := Option.isSome_iff_exists.mp (hnamed raw hself)
  rcases mem_withNested.mp hr with rfl | ⟨inner, hnested, hinner⟩
  · exact ⟨[name], .here hmem hname⟩
  · have hbelow : ∀ s ∈ allNested inner, s.name.isSome := by
      intro s hs
      apply hnamed s
      exact mem_allNested.mpr ⟨raw, hmem, mem_withNested.mpr (.inr ⟨inner, hnested, mem_allNested.mp hs⟩)⟩
    obtain ⟨names, hstands⟩ := exists_standsAt hbelow (mem_allNested.mpr hinner)
    exact ⟨name :: names, .inside hmem hname hnested hstands⟩
termination_by sizeOf fields
decreasing_by
  have hraw := List.sizeOf_lt_of_mem hmem
  obtain ⟨_, _, _, _, _, _, _, nested, _, _, _, _, _, _⟩ := raw
  obtain rfl : nested = some inner := hnested
  simp only [RawField.mk.sizeOf_spec, Option.some.sizeOf_spec] at hraw
  omega

namespace Mongoose

mutual

/-- The field map of the document that a definition embeds, behind arrays and the types of descriptors. -/
def embedded? : Json → Option Entries
  | .obj entries => if isDescriptorObject entries then embeddedInType? entries else some entries
  | .arr items => embeddedInFirst? items
  | .null => none
  | .bool _ => none
  | .int _ => none
  | .float _ => none
  | .str _ => none

/-- The field map in the first item of an array. -/
def embeddedInFirst? : List Json → Option Entries
  | [] => none
  | definition :: _ => embedded? definition

/-- The field map in the type of a descriptor. -/
def embeddedInType? : Entries → Option Entries
  | [] => none
  | (key, definition) :: rest =>
    if key = "type" then embedded? definition else embeddedInType? rest

end

/-- The definition at the end of the names: of a key of the field map, or further on in the document that the
definition of the key embeds. -/
def definitionAt : List String → Entries → Option Json
  | [], _ => none
  | [name], map => Json.lookup name map
  | name :: names, map =>
    (Json.lookup name map).bind fun definition =>
      (embedded? definition).bind fun inner => definitionAt names inner

theorem definitionAt_cons {names : List String} (hne : names ≠ []) (name : String) (map : Entries) :
    definitionAt (name :: names) map = (Json.lookup name map).bind fun definition =>
      (embedded? definition).bind fun inner => definitionAt names inner := by
  obtain ⟨next, rest, rfl⟩ := List.exists_cons_of_ne_nil hne
  rfl

/-- The first name is a key of the field map. -/
theorem mem_keys_of_definitionAt {name : String} {names : List String} {map : Entries} {definition : Json}
    (h : definitionAt (name :: names) map = some definition) : name ∈ map.map (·.1) := by
  have hlookup : ∃ v, Json.lookup name map = some v := by
    cases names with
    | nil => exact ⟨definition, h⟩
    | cons next names =>
      rw [definitionAt_cons (List.cons_ne_nil next names), Option.bind_eq_some_iff] at h
      obtain ⟨v, hv, -⟩ := h
      exact ⟨v, hv⟩
  obtain ⟨v, hv⟩ := hlookup
  exact List.mem_map.mpr ⟨(name, v), Json.mem_of_lookup hv, rfl⟩

/-- The path at the end of the names, from the root, has a dot between the names. -/
theorem foldl_pathBelow {names : List String} (hne : names ≠ []) (hfirst : names.head? ≠ some "") :
    names.foldl pathBelow "" = ".".intercalate names := by
  have hbelow (path : String) (hpath : path ≠ "") (names : List String) :
      names.foldl pathBelow path = ".".intercalate (path :: names) := by
    induction names generalizing path with
    | nil => simp
    | cons name names ih =>
      have hlonger : path ++ "." ++ name ≠ "" := by simp [hpath]
      rw [List.foldl_cons, pathBelow, if_neg (by simpa using hpath), ih _ hlonger,
        String.intercalate_cons_cons]
      cases names with
      | nil => simp
      | cons next names => simp only [String.intercalate_cons_cons, String.append_assoc]
  cases names with
  | nil => exact absurd rfl hne
  | cons name names =>
    rw [List.foldl_cons, pathBelow, if_pos (beq_self_eq_true "")]
    apply hbelow
    simpa using hfirst

/-! ## Definitions -/

/-- Whether a definition says by itself that its field is required. It is a descriptor and says so by true,
alone or at the front of an array. -/
def DemandsValue (definition : Json) : Prop :=
  ∃ entries, definition = .obj entries ∧ isDescriptorObject entries = true ∧
    (Json.lookup "required" entries = some (.bool true) ∨
      ∃ rest, Json.lookup "required" entries = some (.arr (.bool true :: rest)))

theorem saysRequired_iff {v : Json} :
    saysRequired v = true ↔ v = .bool true ∨ ∃ rest, v = .arr (.bool true :: rest) := by
  unfold saysRequired
  split <;> simp_all

theorem demandsValue_iff {definition : Json} : DemandsValue definition ↔
    (descriptor? definition).any (fun entries =>
      saysRequired ((Json.lookup "required" entries).getD .null)) = true := by
  unfold DemandsValue descriptor?
  cases definition with
  | obj entries =>
    cases hdescriptor : isDescriptorObject entries with
    | false => simp [hdescriptor]
    | true =>
      cases hvalue : Json.lookup "required" entries with
      | none => simp [hdescriptor, hvalue, saysRequired]
      | some v => simp [hdescriptor, hvalue, saysRequired_iff]
  | _ => simp

/-- What makes the field of a definition required. -/
theorem fieldOf_required (required : List String) (path name : String) (definition : Json)
    (d : Description) : ∃ b, (fieldOf required path name definition d).required = some b ∧
      (b = true ↔ path ∈ required ∨ DemandsValue definition) := by
  rw [fieldOf_eq, demandsValue_iff]
  exact ⟨_, rfl, by simp⟩

/-- A descriptor states no document beside its type. -/
theorem ofDescriptor?_ne_document (entries : Entries) (fields : List RawField) :
    Item.ofDescriptor? entries ≠ some (.document fields) := by
  intro h
  unfold Item.ofDescriptor? at h
  split at h
  · obtain ⟨values, -, hitem⟩ := Option.map_eq_some_iff.mp h
    cases hitem
  · cases h
  · obtain ⟨values, -, hitem⟩ := Option.map_eq_some_iff.mp h
    cases hitem

section Describe

variable (required : List String)

mutual

/-- The fields that a definition describes are those of the document that it embeds, at the same path. -/
theorem describe_document (inArray : Bool) (path : String) {fields : List RawField} :
    ∀ v : Json, v.hasDistinctKeys = true → (describe required inArray path v).item = .document fields →
      ∃ inner, embedded? v = some inner ∧ (Json.obj inner).hasDistinctKeys = true ∧
        fields = fieldsOfMap required path inner
  | .obj entries, hkeys, h => by
    rw [describe] at h
    rw [embedded?]
    split at h
    · rename_i hdescriptor
      rw [if_pos hdescriptor]
      split at h
      · rename_i item hitem
        have hdocument : (Item.ofDescriptor? entries) = some (.document fields) := by rw [hitem, ← h]
        exact absurd hdocument (ofDescriptor?_ne_document entries fields)
      · exact describeType_document inArray path entries (Json.hasDistinctKeys_obj.mp hkeys).2 h
    · rename_i hdescriptor
      rw [if_neg hdescriptor]
      exact ⟨entries, rfl, hkeys, (Item.document.inj h).symm⟩
  | .arr items, hkeys, h => by
    rw [describe] at h
    rw [embedded?]
    split at h
    · cases h
    · exact describeFirst_document path items (Json.hasDistinctKeys_arr.mp hkeys) h
  | .null, _, h => by simp [describe, Item.unknown] at h
  | .bool _, _, h => by simp [describe, Item.unknown] at h
  | .int _, _, h => by simp [describe, Item.unknown] at h
  | .float _, _, h => by simp [describe, Item.unknown] at h
  | .str _, _, h => by simp [describe, Item.ofConstructor] at h

theorem describeFirst_document (path : String) {fields : List RawField} :
    ∀ items : List Json, (∀ v ∈ items, v.hasDistinctKeys = true) →
      describeFirst required path items = .document fields →
      ∃ inner, embeddedInFirst? items = some inner ∧ (Json.obj inner).hasDistinctKeys = true ∧
        fields = fieldsOfMap required path inner
  | [], _, h => by simp [describeFirst, Item.unknown] at h
  | v :: _, hkeys, h => by
    rw [describeFirst] at h
    rw [embeddedInFirst?]
    exact describe_document true path v (hkeys v List.mem_cons_self) h

theorem describeType_document (inArray : Bool) (path : String) {fields : List RawField} :
    ∀ entries : Entries, (∀ e ∈ entries, e.2.hasDistinctKeys = true) →
      (describeType required inArray path entries).item = .document fields →
      ∃ inner, embeddedInType? entries = some inner ∧ (Json.obj inner).hasDistinctKeys = true ∧
        fields = fieldsOfMap required path inner
  | [], _, h => by simp [describeType, Item.unknown] at h
  | (key, v) :: entries, hkeys, h => by
    rw [List.forall_mem_cons] at hkeys
    rw [describeType] at h
    rw [embeddedInType?]
    split at h
    · rename_i hkey
      rw [if_pos hkey]
      exact describe_document inArray path v hkeys.1 h
    · rename_i hkey
      rw [if_neg hkey]
      exact describeType_document inArray path entries hkeys.2 h

end

/-- A field of a field map is the field of an entry. -/
theorem exists_entry_of_mem {path : String} {entries : Entries} {raw : RawField}
    (h : raw ∈ fieldsOfMap required path entries) : ∃ name definition, (name, definition) ∈ entries ∧
      raw = fieldOfEntry required (pathBelow path name) name definition := by
  induction entries with
  | nil => simp [fieldsOfMap] at h
  | cons e entries ih =>
    obtain ⟨key, v⟩ := e
    rw [fieldsOfMap] at h
    have hlater (hmem : raw ∈ fieldsOfMap required path entries) :
        ∃ name definition, (name, definition) ∈ (key, v) :: entries ∧
          raw = fieldOfEntry required (pathBelow path name) name definition := by
      obtain ⟨name, definition, hentry, hraw⟩ := ih hmem
      exact ⟨name, definition, List.mem_cons_of_mem _ hentry, hraw⟩
    split at h
    · exact hlater h
    · rcases List.mem_cons.mp h with rfl | hmem
      · exact ⟨key, v, List.mem_cons_self, rfl⟩
      · exact hlater hmem

/-- A field at the end of names has a definition there, and is required if the path that the names make is
in the set, or if the definition says so. -/
theorem required_of_standsAt {fields : List RawField} {names : List String} {raw : RawField}
    (h : StandsAt fields names raw) : ∀ {path : String} {map : Entries},
      (Json.obj map).hasDistinctKeys = true → fields = fieldsOfMap required path map →
      ∃ definition b, definitionAt names map = some definition ∧ raw.required = some b ∧
        (b = true ↔ names.foldl pathBelow path ∈ required ∨ DemandsValue definition) := by
  -- An entry of the field map is looked up by the name of its field.
  have hentry {path : String} {map : Entries} {raw : RawField} {name : String}
      (hkeys : (Json.obj map).hasDistinctKeys = true) (hmem : raw ∈ fieldsOfMap required path map)
      (hname : raw.name = some name) : ∃ definition, Json.lookup name map = some definition ∧
        raw = fieldOfEntry required (pathBelow path name) name definition := by
    obtain ⟨key, definition, hmap, rfl⟩ := exists_entry_of_mem required hmem
    rw [fieldOfEntry, (fieldOf_shape ..).1] at hname
    obtain rfl := Option.some.inj hname
    exact ⟨definition, Json.lookup_of_mem (Json.hasDistinctKeys_obj.mp hkeys).1 hmap, rfl⟩
  induction h with
  | @here fields raw name hmem hname =>
    rintro path map hkeys rfl
    obtain ⟨definition, hlookup, rfl⟩ := hentry hkeys hmem hname
    obtain ⟨b, hb, hiff⟩ := fieldOf_required required (pathBelow path name) name definition
      (describe required false (pathBelow path name) definition)
    exact ⟨definition, b, hlookup, hb, hiff⟩
  | @inside fields inner raw r name names hmem hname hnested hstands ih =>
    rintro path map hkeys rfl
    obtain ⟨definition, hlookup, rfl⟩ := hentry hkeys hmem hname
    have hfields : (describe required false (pathBelow path name) definition).item = .document inner := by
      rw [fieldOfEntry, (fieldOf_shape ..).2.2.2] at hnested
      cases hitem : (describe required false (pathBelow path name) definition).item with
      | document fields =>
        rw [hitem] at hnested
        rw [Option.some.inj hnested]
      | _ =>
        rw [hitem] at hnested
        cases hnested
    obtain ⟨inside, hembedded, hinside, hinner⟩ := describe_document required false (pathBelow path name)
      definition (Json.hasDistinctKeys_of_lookup hkeys hlookup) hfields
    obtain ⟨found, b, hfound, hb, hiff⟩ := ih hinside hinner
    refine ⟨found, b, ?_, hb, hiff⟩
    rw [definitionAt_cons hstands.names_ne_nil, hlookup, Option.bind_some, hembedded, Option.bind_some]
    exact hfound

end Describe

/-! ## Other sets of paths -/

/-- The raw field without the attribute that says whether it is required. -/
def withoutRequired (raw : RawField) : RawField :=
  { raw with required := none }

theorem withoutRequired_fieldOf (required required' : List String) (path path' name : String)
    (definition : Json) (d : Description) :
    withoutRequired (fieldOf required path name definition d) =
      withoutRequired (fieldOf required' path' name definition d) := by
  rw [fieldOf_eq, fieldOf_eq]
  rfl

section Sets

variable (required required' : List String)

mutual

/-- Whatever the set of paths is, a definition describes the same but for what is required inside it. -/
theorem describe_withoutRequired (inArray : Bool) (path : String) : ∀ v : Json,
    (describe required inArray path v).everywhere withoutRequired =
      (describe required' inArray path v).everywhere withoutRequired
  | .obj entries => by
    rw [describe, describe]
    split
    · cases Item.ofDescriptor? entries with
      | some item => rfl
      | none => exact describeType_withoutRequired inArray path entries
    · show Description.mk false (.document (everywhereIn withoutRequired _)) = ⟨false, .document _⟩
      rw [fieldsOfMap_withoutRequired path entries]
  | .arr items => by
    rw [describe, describe]
    split
    · rfl
    · show Description.mk true (Item.everywhere withoutRequired _) = ⟨true, _⟩
      rw [describeFirst_withoutRequired path items]
  | .null => by rw [describe, describe]
  | .bool _ => by rw [describe, describe]
  | .int _ => by rw [describe, describe]
  | .float _ => by rw [describe, describe]
  | .str _ => by rw [describe, describe]

theorem describeFirst_withoutRequired (path : String) : ∀ items : List Json,
    (describeFirst required path items).everywhere withoutRequired =
      (describeFirst required' path items).everywhere withoutRequired
  | [] => rfl
  | v :: _ => congrArg Description.item (describe_withoutRequired true path v)

theorem describeType_withoutRequired (inArray : Bool) (path : String) : ∀ entries : Entries,
    (describeType required inArray path entries).everywhere withoutRequired =
      (describeType required' inArray path entries).everywhere withoutRequired
  | [] => rfl
  | (key, v) :: entries => by
    rw [describeType, describeType]
    split
    · exact describe_withoutRequired inArray path v
    · exact describeType_withoutRequired inArray path entries

theorem fieldsOfMap_withoutRequired (path : String) : ∀ entries : Entries,
    everywhereIn withoutRequired (fieldsOfMap required path entries) =
      everywhereIn withoutRequired (fieldsOfMap required' path entries)
  | [] => rfl
  | (name, v) :: entries => by
    have hlater := fieldsOfMap_withoutRequired path entries
    rw [fieldsOfMap, fieldsOfMap]
    split
    · exact hlater
    · rw [everywhereIn, everywhereIn, hlater, everywhere_fieldOf, everywhere_fieldOf,
        describe_withoutRequired false _ v, withoutRequired_fieldOf required required']

end

end Sets

/-- Each field of a field map stands at names. It is required exactly if the names with dots between them are
in the set of paths, or if the definition that stands at the names says so. For another set, all fields are
the same but for what is required. -/
theorem fieldsOfMap_required (required required' : List String) {map : Entries}
    (hkeys : (Json.obj map).hasDistinctKeys = true) (hnames : "" ∉ map.map (·.1)) :
    (∀ raw ∈ allNested (fieldsOfMap required "" map),
      ∃ names, StandsAt (fieldsOfMap required "" map) names raw) ∧
    (∀ names raw, StandsAt (fieldsOfMap required "" map) names raw →
      ∃ definition b, definitionAt names map = some definition ∧ raw.required = some b ∧
        (b = true ↔ ".".intercalate names ∈ required ∨ DemandsValue definition)) ∧
    everywhereIn withoutRequired (fieldsOfMap required "" map) =
      everywhereIn withoutRequired (fieldsOfMap required' "" map) := by
  refine ⟨?_, ?_, fieldsOfMap_withoutRequired required required' "" map⟩
  · intro raw hraw
    refine exists_standsAt (fun r hr => ?_) hraw
    exact (fieldsOfMap_wellShaped required "" map (Json.hasDistinctKeys_obj.mp hkeys).2 r hr).named
  · intro names raw hstands
    obtain ⟨definition, b, hfound, hb, hiff⟩ := required_of_standsAt required hstands hkeys rfl
    have hfirst : names.head? ≠ some "" := by
      intro hhead
      obtain ⟨rest, rfl⟩ := List.head?_eq_some_iff.mp hhead
      exact hnames (mem_keys_of_definitionAt hfound)
    rw [← foldl_pathBelow hstands.names_ne_nil hfirst]
    exact ⟨definition, b, hfound, hb, hiff⟩

/-- An address behind a type and orders in an array. Its city is required, with a message. -/
def shopFields : Entries :=
  [("address", .obj [("type", .obj [("city", .obj [("type", .str "String"),
      ("required", .arr [.bool true, .str "Where?"])])])]),
    ("orders", .arr [.obj [("total", .str "Number")]])]

theorem fieldsOfMap_required_shop : (Json.obj shopFields).hasDistinctKeys = true ∧ "" ∉ shopFields.map (·.1) ∧
    (∃ raw, StandsAt (fieldsOfMap ["orders.total"] "" shopFields) ["address", "city"] raw ∧
      raw.required = some true) ∧
    (∃ raw, StandsAt (fieldsOfMap ["orders.total"] "" shopFields) ["orders", "total"] raw ∧
      raw.required = some true) := by
  have hkeys : (Json.obj shopFields).hasDistinctKeys = true := by decide +kernel
  have hnames : "" ∉ shopFields.map (·.1) := by decide +kernel
  obtain ⟨-, hplaces, -⟩ := fieldsOfMap_required ["orders.total"] [] hkeys hnames
  have hcity : ∃ raw, StandsAt (fieldsOfMap ["orders.total"] "" shopFields) ["address", "city"] raw :=
    ⟨_, .inside List.mem_cons_self rfl rfl (.here List.mem_cons_self rfl)⟩
  have htotal : ∃ raw, StandsAt (fieldsOfMap ["orders.total"] "" shopFields) ["orders", "total"] raw :=
    ⟨_, .inside (List.mem_cons_of_mem _ List.mem_cons_self) rfl rfl (.here List.mem_cons_self rfl)⟩
  obtain ⟨city, hcity⟩ := hcity
  obtain ⟨total, htotal⟩ := htotal
  refine ⟨hkeys, hnames, ⟨city, hcity, ?_⟩, total, htotal, ?_⟩
  · obtain ⟨definition, b, hfound, hb, hiff⟩ := hplaces _ _ hcity
    obtain rfl := Option.some.inj hfound
    rw [hb, hiff.mpr (.inr ⟨_, rfl, rfl, .inr ⟨_, rfl⟩⟩)]
  · obtain ⟨definition, b, hfound, hb, hiff⟩ := hplaces _ _ htotal
    rw [hb, hiff.mpr (.inl (by decide +kernel))]

end Mongoose

end SchemaTypes
