import SchemaTypes.Mongoose.Definition

/-!
# Arrays around definitions

An array around a definition holds what the definition describes, unless that is an array itself: nothing is
known about the items of an array inside an array. Whether a definition stands inside an array matters in
two places only, at an array and at a descriptor with an array as its type, and each of them makes the field
an array where it stands by itself. So where a definition describes a single item, it describes the same
one inside an array.

The rule for arrays inside arrays has a hole. A descriptor that names a model or lists texts is read before
its type is looked at, and inside an array it gives its item even if its type is an array. The two arrays
become one, and the item is not unknown.

Results:
* `besideArray?_eq_some`: a definition with an item beside an array type describes an array of this item.
* `describe_inside`: what a definition describes inside an array, from what it describes by itself.
* `fieldOfEntry_array`: the field of an array around a definition.
* `fieldOfEntry_array_beside`: an array of arrays that is not unknown.
-/

namespace SchemaTypes

/-- What a raw field states about its shape: a scalar, listed texts, a model or fields. -/
def RawField.shapeStatements (raw : RawField) :
    Option ScalarKind × Option (List String) × Option String × Option (List RawField) :=
  (raw.scalar, raw.enumValues, raw.target, raw.nested)

/-- The statements about the shape of a field, or an element, of which nothing is known. -/
def unknownStatements :
    Option ScalarKind × Option (List String) × Option String × Option (List RawField) :=
  (some .unknown, none, none, none)

namespace Mongoose

mutual

/-- The item that a descriptor gives beside a type that is an array. The descriptor may itself be the type of
another one. -/
def besideArray? : Json → Option Item
  | .obj entries =>
    if isDescriptorObject entries then
      match Item.ofDescriptor? entries with
      | some item => if hasArrayType entries then some item else none
      | none => besideArrayType? entries
    else none
  | .null => none
  | .bool _ => none
  | .int _ => none
  | .float _ => none
  | .str _ => none
  | .arr _ => none

/-- The item that the type of a descriptor gives in this way. -/
def besideArrayType? : Entries → Option Item
  | [] => none
  | (key, definition) :: rest =>
    if key = "type" then besideArray? definition else besideArrayType? rest

end

/-! ## Definitions inside arrays -/

section Describe

variable (required : List String) (path : String)

mutual

/-- A definition with an item beside an array type describes an array of this item. It is the item that a
descriptor states. -/
theorem besideArray?_eq_some {item : Item} : ∀ v : Json, besideArray? v = some item →
    describe required false path v = ⟨true, item⟩ ∧ ∃ entries, Item.ofDescriptor? entries = some item
  | .obj entries, h => by
    rw [besideArray?] at h
    rw [describe]
    split at h
    · rename_i hdescriptor
      rw [if_pos hdescriptor]
      cases hstated : Item.ofDescriptor? entries with
      | some stated =>
        rw [hstated] at h
        dsimp only at h ⊢
        split at h
        · rename_i harray
          obtain rfl := Option.some.inj h
          rw [harray]
          exact ⟨rfl, entries, hstated⟩
        · simp at h
      | none =>
        rw [hstated] at h
        exact besideArrayType?_eq_some entries h
    · simp at h
  | .null, h => by simp [besideArray?] at h
  | .bool _, h => by simp [besideArray?] at h
  | .int _, h => by simp [besideArray?] at h
  | .float _, h => by simp [besideArray?] at h
  | .str _, h => by simp [besideArray?] at h
  | .arr _, h => by simp [besideArray?] at h

theorem besideArrayType?_eq_some {item : Item} : ∀ entries : Entries,
    besideArrayType? entries = some item → describeType required false path entries = ⟨true, item⟩ ∧
      ∃ entries, Item.ofDescriptor? entries = some item
  | [], h => by simp [besideArrayType?] at h
  | (key, v) :: entries, h => by
    rw [besideArrayType?] at h
    rw [describeType]
    split at h
    · rename_i hkey
      rw [if_pos hkey]
      exact besideArray?_eq_some v h
    · rename_i hkey
      rw [if_neg hkey]
      exact besideArrayType?_eq_some entries h

end

/-- What is said inside an array, from what is said outside of one: the same about a single item. Of an array
it is unknown, unless an item stands beside its type. -/
def Description.inside (outside : Description) (beside : Option Item) : Description :=
  if outside.isArray then ⟨false, beside.getD .unknown⟩ else outside

mutual

/-- What a definition describes inside an array. -/
theorem describe_inside : ∀ v : Json, describe required true path v =
    (describe required false path v).inside (besideArray? v)
  | .obj entries => by
    rw [describe, describe, besideArray?]
    by_cases hdescriptor : isDescriptorObject entries
    · rw [if_pos hdescriptor, if_pos hdescriptor, if_pos hdescriptor]
      cases Item.ofDescriptor? entries with
      | some item => cases hasArrayType entries <;> rfl
      | none => exact describeType_inside entries
    · rw [if_neg hdescriptor, if_neg hdescriptor]
      rfl
  | .null => by rw [describe, describe]; rfl
  | .bool _ => by rw [describe, describe]; rfl
  | .int _ => by rw [describe, describe]; rfl
  | .float _ => by rw [describe, describe]; rfl
  | .str _ => by rw [describe, describe]; rfl
  | .arr _ => by rw [describe, describe, besideArray?]; rfl

theorem describeType_inside : ∀ entries : Entries, describeType required true path entries =
    (describeType required false path entries).inside (besideArrayType? entries)
  | [] => by rw [describeType, describeType]; rfl
  | (key, v) :: entries => by
    rw [describeType, describeType, besideArrayType?]
    split
    · exact describe_inside v
    · exact describeType_inside entries

end

/-- What an array around a definition describes. -/
theorem describe_around (v : Json) : describe required false path (.arr [v]) =
    ⟨true, ((describe required false path v).inside (besideArray? v)).item⟩ := by
  rw [describe_single, describe_inside]

end Describe

/-! ## Fields -/

/-- The statements that an item makes about the shape of its field. -/
def Item.statements : Item →
    Option ScalarKind × Option (List String) × Option String × Option (List RawField)
  | .scalar kind _ => (some kind, none, none, none)
  | .choice values => (none, some values, none, none)
  | .reference target => (none, none, some target, none)
  | .document fields => (none, none, none, some fields)

variable {required : List String} {path name : String}

theorem fieldOf_statements (definition : Json) (d : Description) :
    (fieldOf required path name definition d).shapeStatements = d.item.statements := by
  obtain ⟨isArray, item⟩ := d
  unfold fieldOf
  cases item <;> dsimp only <;> split <;> (try split) <;> rfl

theorem fieldOf_isArray (definition : Json) (d : Description) :
    (fieldOf required path name definition d).isArray = if d.isArray then some true else none := by
  obtain ⟨isArray, item⟩ := d
  unfold fieldOf
  cases item <;> dsimp only <;> split <;> (try split) <;> rfl

theorem fieldOf_isArray_iff (definition : Json) (d : Description) :
    (fieldOf required path name definition d).isArray = some true ↔ d.isArray = true := by
  rw [fieldOf_isArray]
  cases d.isArray <;> simp

/-- The item that a descriptor states is a model or listed texts. -/
theorem ofDescriptor?_statements {entries : Entries} {item : Item}
    (h : Item.ofDescriptor? entries = some item) : item.statements ≠ unknownStatements := by
  unfold Item.ofDescriptor? at h
  split at h
  · obtain ⟨values, -, rfl⟩ := Option.map_eq_some_iff.mp h
    simp [Item.statements, unknownStatements]
  · rw [← Option.some.inj h]
    simp [Item.statements, unknownStatements]
  · obtain ⟨values, -, rfl⟩ := Option.map_eq_some_iff.mp h
    simp [Item.statements, unknownStatements]

/-- The field of an array around a definition is an array. If the definition describes a single item, the
array states the same about its items. If it describes an array, the items are unknown, but for an item
that stands beside the type of a descriptor: then both fields are arrays of this item. -/
theorem fieldOfEntry_array (required : List String) (path name : String) (d : Json) :
    (fieldOfEntry required path name (.arr [d])).isArray = some true ∧
    ((fieldOfEntry required path name d).isArray ≠ some true →
      (fieldOfEntry required path name (.arr [d])).shapeStatements =
        (fieldOfEntry required path name d).shapeStatements) ∧
    ((fieldOfEntry required path name d).isArray = some true →
      ((fieldOfEntry required path name (.arr [d])).shapeStatements = unknownStatements ↔
        besideArray? d = none)) ∧
    ∀ item, besideArray? d = some item →
      (fieldOfEntry required path name d).isArray = some true ∧
      (fieldOfEntry required path name d).shapeStatements = item.statements ∧
      (fieldOfEntry required path name (.arr [d])).shapeStatements = item.statements := by
  unfold fieldOfEntry
  simp only [ne_eq, fieldOf_isArray_iff, fieldOf_statements, describe_around]
  refine ⟨trivial, ?_, ?_, ?_⟩
  · intro hsingle
    rw [Description.inside, if_neg hsingle]
  · intro harray
    rw [Description.inside, if_pos harray]
    cases hbeside : besideArray? d with
    | none => exact ⟨fun _ => rfl, fun _ => rfl⟩
    | some item =>
      obtain ⟨-, entries, hstated⟩ := besideArray?_eq_some required path d hbeside
      simpa using ofDescriptor?_statements hstated
  · intro item hbeside
    rw [(besideArray?_eq_some required path d hbeside).1, hbeside]
    exact ⟨rfl, rfl, rfl⟩

/-- References to users, each one of them an array of references. -/
def referencesDefinition : Json :=
  .obj [("type", .arr [.str "ObjectId"]), ("ref", .str "User")]

theorem fieldOfEntry_array_samples :
    (fieldOfEntry [] "a" "a" (.arr [.obj [("enum", .arr [.str "x", .int 1])]])).shapeStatements =
      (none, some ["x", "1"], none, none) ∧
    (fieldOfEntry [] "a" "a" (.arr [.obj [("type", .arr [.str "String"])]])).shapeStatements =
      unknownStatements ∧
    (fieldOfEntry [] "a" "a" (.arr [referencesDefinition])).shapeStatements =
      (none, none, some "User", none) := by
  have hsingle : (fieldOfEntry [] "a" "a" (.obj [("enum", .arr [.str "x", .int 1])])).isArray ≠
      some true := by decide +kernel
  have harray : (fieldOfEntry [] "a" "a" (.obj [("type", .arr [.str "String"])])).isArray =
      some true := by decide +kernel
  obtain ⟨-, hchoice, -⟩ :=
    fieldOfEntry_array [] "a" "a" (.obj [("enum", .arr [.str "x", .int 1])])
  obtain ⟨-, -, hunknown, -⟩ :=
    fieldOfEntry_array [] "a" "a" (.obj [("type", .arr [.str "String"])])
  obtain ⟨-, -, -, hbeside⟩ := fieldOfEntry_array [] "a" "a" referencesDefinition
  exact ⟨(hchoice hsingle).trans rfl, (hunknown harray).mpr rfl, (hbeside (.reference "User") rfl).2.2⟩

/-- An array of arrays whose items are not unknown. -/
theorem fieldOfEntry_array_beside :
    (fieldOfEntry [] "friends" "friends" referencesDefinition).isArray = some true ∧
    (fieldOfEntry [] "friends" "friends" (.arr [referencesDefinition])).scalar ≠ some .unknown ∧
    (fieldOfEntry [] "friends" "friends" (.arr [referencesDefinition])).target = some "User" := by
  decide +kernel

end Mongoose

end SchemaTypes
