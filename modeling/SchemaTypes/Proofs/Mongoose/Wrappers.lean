import SchemaTypes.Proofs.Mongoose.Attributes

/-!
# Bare types

A descriptor with nothing but a type says what the type says. A definition can be wrapped in this way wherever
one is read, at a field or as the first item of an array and at every depth, and the fields keep their names
and their shapes. What else a descriptor says about its field is not kept: a field that is wrapped has a
mark for unique values, and a descriptor that is wrapped no longer speaks for the field.

Arrays are read by two rules, one for an array that is a definition and one for an array that is the type of a
descriptor (`describe_descriptor`). The rules agree, also inside an array and for an array without items, and
this is what makes a wrapper around an array go unnoticed. A type itself is no place for a wrapper: beside a
reference or listed texts, whether the type is an array is seen at the type alone.

Results:
* `describe_descriptor`: the rules for a descriptor.
* `describe_bareType`: a wrapper around a definition.
* `describe_wrapped`: a wrapper at any place inside a definition.
* `fieldsOfMap_wrapped`: a wrapper at any place inside a field map.
-/

namespace SchemaTypes.Mongoose

/-! ## Places -/

/-- The definition as the type of a descriptor that says nothing else. -/
def bareType (definition : Json) : Json :=
  .obj [("type", definition)]

/-- Whether the second definition is the first one with a wrapper around one definition in it. The wrapper
stands around the whole, or around a field of an embedded document or the first item of an array, behind any
number of these. On the way there can be types of descriptors, but `asType` tells that the definition itself
is a type, and then the wrapper is not around the whole. -/
inductive Wrapped : (asType : Bool) → Json → Json → Prop
  | here (v : Json) : Wrapped false v (bareType v)
  | item {asType : Bool} {v v' : Json} (items : List Json) (h : Wrapped false v v') :
    Wrapped asType (.arr (v :: items)) (.arr (v' :: items))
  | field {asType : Bool} {v v' : Json} {before after : Entries} {name : String}
      (hdocument : isDescriptorObject (before ++ (name, v) :: after) = false) (h : Wrapped false v v') :
    Wrapped asType (.obj (before ++ (name, v) :: after)) (.obj (before ++ (name, v') :: after))
  | type {asType : Bool} {v v' : Json} (before after : Entries) (h : Wrapped true v v') :
    Wrapped asType (.obj (before ++ ("type", v) :: after)) (.obj (before ++ ("type", v') :: after))

/-- Whether the second field map is the first one with a wrapper around one definition in it, at any depth. -/
def WrappedIn (map map' : Entries) : Prop :=
  ∃ before name v v' after, Wrapped false v v' ∧ map = before ++ (name, v) :: after ∧
    map' = before ++ (name, v') :: after

section Replaced

variable {before after : Entries} {name : String} {v v' : Json}

/-- Another value in an entry is found under the key, or not at all. -/
theorem lookup_replaced (key : String) :
    Json.lookup key (before ++ (name, v) :: after) = Json.lookup key (before ++ (name, v') :: after) ∨
      key = name ∧ Json.lookup key (before ++ (name, v) :: after) = some v ∧
        Json.lookup key (before ++ (name, v') :: after) = some v' := by
  induction before with
  | nil =>
    simp only [List.nil_append, Json.lookup]
    by_cases hkey : name = key
    · rw [if_pos hkey, if_pos hkey]
      exact .inr ⟨hkey.symm, rfl, rfl⟩
    · rw [if_neg hkey, if_neg hkey]
      exact .inl rfl
  | cons e before ih =>
    simp only [List.cons_append, Json.lookup]
    by_cases hkey : e.1 = key
    · rw [if_pos hkey, if_pos hkey]
      exact .inl rfl
    · rw [if_neg hkey, if_neg hkey]
      exact ih

theorem lookup_replaced_of_ne {key : String} (hkey : key ≠ name) :
    Json.lookup key (before ++ (name, v) :: after) = Json.lookup key (before ++ (name, v') :: after) :=
  (lookup_replaced key).resolve_right fun h => hkey h.1

theorem isDescriptorObject_replaced : isDescriptorObject (before ++ (name, v) :: after) =
    isDescriptorObject (before ++ (name, v') :: after) := by
  simp [isDescriptorObject]

/-- Another type does not change what is said beside the type. -/
theorem ofDescriptor?_replaced : Item.ofDescriptor? (before ++ ("type", v) :: after) =
    Item.ofDescriptor? (before ++ ("type", v') :: after) := by
  have href : Json.lookup "ref" (before ++ ("type", v) :: after) =
      Json.lookup "ref" (before ++ ("type", v') :: after) := lookup_replaced_of_ne (by decide)
  have henum : Json.lookup "enum" (before ++ ("type", v) :: after) =
      Json.lookup "enum" (before ++ ("type", v') :: after) := lookup_replaced_of_ne (by decide)
  unfold Item.ofDescriptor?
  rw [href, henum]

theorem hasArrayType_iff {entries : Entries} :
    hasArrayType entries = true ↔ ∃ items, Json.lookup "type" entries = some (.arr items) := by
  unfold hasArrayType
  split
  · rename_i items htype
    exact ⟨fun _ => ⟨items, htype⟩, fun _ => rfl⟩
  · rename_i hother
    exact ⟨nofun, fun ⟨items, htype⟩ => absurd htype (hother items)⟩

/-- Another type is an array if the first one is. -/
theorem hasArrayType_replaced (harray : (∃ items, v = .arr items) ↔ ∃ items, v' = .arr items) :
    hasArrayType (before ++ ("type", v) :: after) = hasArrayType (before ++ ("type", v') :: after) := by
  rw [Bool.eq_iff_iff, hasArrayType_iff, hasArrayType_iff]
  rcases lookup_replaced "type" with heq | ⟨-, hv, hv'⟩
  · rw [heq]
  · rw [hv, hv']
    simpa using harray

end Replaced

/-! ## Descriptors -/

section Describe

variable (required : List String)

/-- The type of a descriptor is found under its key. -/
theorem describeType_eq (inArray : Bool) (path : String) (entries : Entries) :
    describeType required inArray path entries =
      match Json.lookup "type" entries with
      | some v => describe required inArray path v
      | none => ⟨false, .unknown⟩ := by
  induction entries with
  | nil => rfl
  | cons e entries ih =>
    obtain ⟨key, v⟩ := e
    rw [describeType, Json.lookup]
    by_cases hkey : key = "type"
    · rw [if_pos hkey, if_pos hkey]
    · rw [if_neg hkey, if_neg hkey]
      exact ih

/-- What a descriptor describes. An array as its type has a rule of its own: it makes the field an array
outside of arrays, and only there its first item is looked at. -/
theorem describe_descriptor (inArray : Bool) (path : String) {entries : Entries}
    (hdescriptor : isDescriptorObject entries = true) :
    describe required inArray path (.obj entries) =
      match Item.ofDescriptor? entries, Json.lookup "type" entries with
      | some item, _ => ⟨hasArrayType entries && !inArray, item⟩
      | none, some (.arr items) =>
        ⟨!inArray, if inArray then .unknown else describeFirst required path items⟩
      | none, some v => describe required inArray path v
      | none, none => ⟨false, .unknown⟩ := by
  rw [describe, if_pos hdescriptor]
  cases Item.ofDescriptor? entries with
  | some item => rfl
  | none =>
    show describeType required inArray path entries = _
    rw [describeType_eq]
    cases Json.lookup "type" entries with
    | none => rfl
    | some v =>
      cases v with
      | arr items =>
        show describe required inArray path (.arr items) = _
        rw [describe]
        cases inArray <;> rfl
      | _ => rfl

/-- A descriptor with nothing but a type describes what the type describes. -/
theorem describe_bareType (inArray : Bool) (path : String) (v : Json) :
    describe required inArray path (bareType v) = describe required inArray path v := by
  have hstated : Item.ofDescriptor? [("type", v)] = none := rfl
  have htype : Json.lookup "type" [("type", v)] = some v := rfl
  rw [bareType, describe_descriptor required inArray path rfl, hstated, htype]
  cases v with
  | arr items =>
    rw [describe]
    cases inArray <;> rfl
  | _ => rfl

/-! ## Wrappers inside definitions -/

/-- The raw field without the attributes that a descriptor adds to the shape. -/
def bare (raw : RawField) : RawField :=
  { raw with required := none, defaultValue := none, isUnique := none }

theorem bare_fieldOf (path name : String) (definition definition' : Json) (d : Description) :
    bare (fieldOf required path name definition d) = bare (fieldOf required path name definition' d) := by
  rw [fieldOf_eq, fieldOf_eq]
  rfl

theorem fieldsOfMap_append (path : String) (entries more : Entries) :
    fieldsOfMap required path (entries ++ more) =
      fieldsOfMap required path entries ++ fieldsOfMap required path more := by
  induction entries with
  | nil => rfl
  | cons e entries ih =>
    obtain ⟨name, v⟩ := e
    rw [List.cons_append, fieldsOfMap, fieldsOfMap, ih]
    split
    · rfl
    · rw [List.cons_append]

/-- Another definition in an entry leaves the fields as they are if it describes the same. -/
theorem fieldsOfMap_replaced {v v' : Json} (h : ∀ path,
      (describe required false path v).everywhere bare = (describe required false path v').everywhere bare)
    (path name : String) (before after : Entries) :
    everywhereIn bare (fieldsOfMap required path (before ++ (name, v) :: after)) =
      everywhereIn bare (fieldsOfMap required path (before ++ (name, v') :: after)) := by
  rw [fieldsOfMap_append, fieldsOfMap_append, everywhereIn_append, everywhereIn_append]
  congr 1
  rw [fieldsOfMap, fieldsOfMap]
  split
  · rfl
  · rw [everywhereIn, everywhereIn, everywhere_fieldOf, everywhere_fieldOf, h, bare_fieldOf]

/-- Another type leaves what is described as it is if it describes the same and is an array as well. -/
theorem describe_replaced {v v' : Json} (h : ∀ inArray path,
      (describe required inArray path v).everywhere bare = (describe required inArray path v').everywhere bare)
    (harray : (∃ items, v = .arr items) ↔ ∃ items, v' = .arr items) (inArray : Bool) (path : String)
    (before after : Entries) :
    (describe required inArray path (.obj (before ++ ("type", v) :: after))).everywhere bare =
      (describe required inArray path (.obj (before ++ ("type", v') :: after))).everywhere bare := by
  have hdescriptor (w : Json) : isDescriptorObject (before ++ ("type", w) :: after) = true := by
    simp [isDescriptorObject]
  have hstated : Item.ofDescriptor? (before ++ ("type", v) :: after) =
      Item.ofDescriptor? (before ++ ("type", v') :: after) := ofDescriptor?_replaced
  rw [describe, describe, if_pos (hdescriptor v), if_pos (hdescriptor v'), hstated]
  cases Item.ofDescriptor? (before ++ ("type", v') :: after) with
  | some item =>
    show Description.mk (hasArrayType _ && !inArray) _ = ⟨hasArrayType _ && !inArray, _⟩
    rw [hasArrayType_replaced harray]
  | none =>
    show (describeType required inArray path _).everywhere bare = (describeType _ _ _ _).everywhere bare
    rw [describeType_eq, describeType_eq]
    rcases lookup_replaced "type" with heq | ⟨-, hv, hv'⟩
    · rw [heq]
    · rw [hv, hv']
      exact h inArray path

/-- A wrapper inside a definition leaves the description as it is, and a type that is an array stays one. -/
theorem describe_wrapped {asType : Bool} {v v' : Json} (h : Wrapped asType v v') :
    (∀ inArray path, (describe required inArray path v).everywhere bare =
      (describe required inArray path v').everywhere bare) ∧
    (asType = true → ((∃ items, v = .arr items) ↔ ∃ items, v' = .arr items)) := by
  induction h with
  | here v =>
    refine ⟨fun inArray path => ?_, nofun⟩
    rw [describe_bareType]
  | @item asType v v' items _ ih =>
    refine ⟨fun inArray path => ?_, fun _ => ⟨fun _ => ⟨_, rfl⟩, fun _ => ⟨_, rfl⟩⟩⟩
    rw [describe, describe]
    split
    · rfl
    · have hitem := congrArg Description.item (ih.1 true path)
      show Description.mk true (Item.everywhere bare (describe required true path v).item) = ⟨true, _⟩
      exact congrArg (Description.mk true) hitem
  | @field asType v v' before after name hdocument _ ih =>
    refine ⟨fun inArray path => ?_, fun _ => by simp⟩
    have hdocument' : isDescriptorObject (before ++ (name, v') :: after) = false := by
      rw [← hdocument]
      exact isDescriptorObject_replaced
    rw [describe, describe, hdocument, hdocument']
    show Description.mk false (.document (everywhereIn bare _)) = ⟨false, .document _⟩
    rw [fieldsOfMap_replaced required (ih.1 false) path name before after]
  | @type asType v v' before after _ ih =>
    refine ⟨fun inArray path => ?_, fun _ => by simp⟩
    exact describe_replaced required ih.1 (ih.2 rfl) inArray path before after

/-- A wrapper at any place of a field map, at a field or as the first item of an array, leaves the fields as
they are but for what a descriptor adds to the shape: in the same order, they have the same names and shapes
at every depth. -/
theorem fieldsOfMap_wrapped (path : String) {map map' : Entries} (h : WrappedIn map map') :
    everywhereIn bare (fieldsOfMap required path map) =
      everywhereIn bare (fieldsOfMap required path map') := by
  obtain ⟨before, name, v, v', after, hwrapped, rfl, rfl⟩ := h
  apply fieldsOfMap_replaced
  exact (describe_wrapped required hwrapped).1 false

end Describe

/-- Orders in an array that is a type, each with lines of one type. -/
def ordersOf (line : Json) : Entries :=
  [("orders", .obj [("type", .arr [.obj [("lines", .arr [line])]]), ("required", .bool true)])]

/-- The lines of an order as a field. -/
def linesField : RawField :=
  { name := some "lines", isArray := some true, scalar := some .string, typeToken := some "String" }

/-- The type of a line in a wrapper, below an array, a document, another array and a type, and the fields that
come out. -/
theorem fieldsOfMap_wrapped_orders : WrappedIn (ordersOf (.str "String")) (ordersOf (bareType (.str "String"))) ∧
    everywhereIn bare (fieldsOfMap [] "" (ordersOf (.str "String"))) =
      everywhereIn bare (fieldsOfMap [] "" (ordersOf (bareType (.str "String")))) ∧
    everywhereIn bare (fieldsOfMap [] "" (ordersOf (bareType (.str "String")))) =
      [{ name := some "orders", isArray := some true, nested := some [linesField] }] := by
  have hlines : Wrapped false (.arr [.str "String"]) (.arr [bareType (.str "String")]) := .item [] (.here _)
  have hwrapped : WrappedIn (ordersOf (.str "String")) (ordersOf (bareType (.str "String"))) :=
    ⟨[], "orders", _, _, [], .type [] _ (.item [] (@Wrapped.field _ _ _ [] [] "lines" rfl hlines)), rfl, rfl⟩
  exact ⟨hwrapped, fieldsOfMap_wrapped [] "" hwrapped, rfl⟩

/-- Around a type, a wrapper can hide that the type is an array. -/
example : (fieldOfEntry [] "friends" "friends" (.obj [("type", .arr [.str "ObjectId"]),
      ("ref", .str "User")])).isArray = some true ∧
    (fieldOfEntry [] "friends" "friends" (.obj [("type", bareType (.arr [.str "ObjectId"])),
      ("ref", .str "User")])).isArray = none := by
  decide +kernel

end SchemaTypes.Mongoose
