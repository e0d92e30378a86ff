import SchemaTypes.Proofs.Mongoose.Arrays

/-!
# Attributes of fields

The field of a definition takes its shape from the description of the definition, its name from the key, and
the other attributes from the entries of a descriptor. So each attribute is known by itself.

Two field maps may yield the same fields but for some attributes. Fields are nested, so these attributes have
to be left out at every depth before the fields are compared. A change of single fields is carried to all
fields inside a field, and from there to what a definition describes. The fields inside a field come from the
description of its item alone, so the change of the field of a definition is a change of the description
first.

Results:
* `fieldOf_eq`: the field of a definition, attribute by attribute.
* `names_fieldsOfMap`: which fields a field map yields.
* `RawField.everywhere_eq`: a field that is changed at every depth.
* `everywhere_fieldOf`: the field of a definition, from the description that is changed.
-/

namespace SchemaTypes

/-! ## Every depth -/

section Everywhere

variable (change : RawField → RawField)

mutual

/-- The raw field after a change of all fields inside it, at every depth, and then of the field. -/
def RawField.everywhere : RawField → RawField
  | ⟨name, scalar, required, isArray, enumName, enumValues, target, nested, defaultValue, isPrimary,
      isUnique, description, typeToken, illTyped⟩ =>
    change ⟨name, scalar, required, isArray, enumName, enumValues, target,
      match nested with
      | some raws => some (everywhereIn raws)
      | none => none,
      defaultValue, isPrimary, isUnique, description, typeToken, illTyped⟩

/-- The raw fields after a change of each one at every depth. -/
def everywhereIn : List RawField → List RawField
  | [] => []
  | raw :: raws => raw.everywhere :: everywhereIn raws

end

theorem RawField.everywhere_eq (raw : RawField) : raw.everywhere change =
    change { raw with nested := raw.nested.map (everywhereIn change) } := by
  obtain ⟨_, _, _, _, _, _, _, nested, _, _, _, _, _, _⟩ := raw
  cases nested <;> simp [RawField.everywhere]

theorem everywhereIn_append (raws more : List RawField) :
    everywhereIn change (raws ++ more) = everywhereIn change raws ++ everywhereIn change more := by
  induction raws with
  | nil => rfl
  | cons raw raws ih => rw [List.cons_append, everywhereIn, everywhereIn, ih, List.cons_append]

end Everywhere

namespace Mongoose

/-! ## The field of a definition -/

/-- The entries of a definition that is a descriptor. -/
def descriptor? : Json → Option Entries
  | .obj entries => if isDescriptorObject entries then some entries else none
  | _ => none

/-- The constructor that an item names. -/
def Item.token? : Item → Option String
  | .scalar _ token => token
  | _ => none

/-- The field of a definition, attribute by attribute. -/
theorem fieldOf_eq (required : List String) (path name : String) (definition : Json) (d : Description) :
    fieldOf required path name definition d =
      { name := some name
        scalar := d.item.statements.1
        required := some (required.contains path || (descriptor? definition).any fun entries =>
          saysRequired ((Json.lookup "required" entries).getD .null))
        isArray := if d.isArray then some true else none
        enumValues := d.item.statements.2.1
        target := d.item.statements.2.2.1
        nested := d.item.statements.2.2.2
        defaultValue := (descriptor? definition).bind fun entries =>
          (Json.lookup "default" entries).map Json.sorted
        isUnique := (descriptor? definition).map fun entries =>
          match Json.lookup "unique" entries with
          | some (.bool b) => b
          | _ => false
        typeToken := d.item.token? } := by
  obtain ⟨isArray, item⟩ := d
  unfold fieldOf descriptor?
  cases definition with
  | obj entries =>
    by_cases hdescriptor : isDescriptorObject entries
    · simp only [if_pos hdescriptor]
      cases item <;> rfl
    · simp only [if_neg hdescriptor]
      cases item <;> simp [Item.statements, Item.token?]
  | _ => cases item <;> simp [Item.statements, Item.token?]

/-- Every entry of a field map yields a field under its key, but for the internal ones. -/
theorem names_fieldsOfMap (required : List String) (path : String) (map : Entries) :
    (fieldsOfMap required path map).map (·.name) =
      (map.filter fun e => e.1.toList.head? != some '_').map fun e => some e.1 := by
  induction map with
  | nil => rfl
  | cons e map ih =>
    obtain ⟨name, definition⟩ := e
    rw [fieldsOfMap]
    by_cases hinternal : name.toList.head? == some '_'
    · rw [if_pos hinternal, ih, List.filter_cons_of_neg (by simpa using hinternal)]
    · rw [if_neg hinternal, List.filter_cons_of_pos (by simpa using hinternal), List.map_cons, List.map_cons, ih,
        fieldOf_eq]

/-! ## Descriptions at every depth -/

/-- The item with its fields changed. -/
def Item.everywhere (change : RawField → RawField) : Item → Item
  | .document fields => .document (everywhereIn change fields)
  | .scalar kind token => .scalar kind token
  | .reference target => .reference target
  | .choice values => .choice values

/-- What is said about a shape, with the fields of the item changed. -/
def Description.everywhere (change : RawField → RawField) (d : Description) : Description :=
  ⟨d.isArray, d.item.everywhere change⟩

/-- The field of a definition is changed inside the description first. -/
theorem everywhere_fieldOf (change : RawField → RawField) (required : List String) (path name : String)
    (definition : Json) (d : Description) : (fieldOf required path name definition d).everywhere change =
      change (fieldOf required path name definition (d.everywhere change)) := by
  obtain ⟨isArray, item⟩ := d
  rw [RawField.everywhere_eq, fieldOf_eq, fieldOf_eq]
  cases item <;> rfl

end Mongoose

end SchemaTypes
