import SchemaTypes.Proofs.Declaration.Lines
import SchemaTypes.Text.Word

/-!
# Type trees

What a declaration says about a model is a tree: the properties of an object, each with its name,
whether it is required and its type; and a type is an item or an array of items, where an item is an
atom, a choice between texts or an object. A tree leaves out what no declaration without comments
shows: whether an atom is a scalar, a reference or a declared enum, and everything about a field
that is not its type.

The text of a tree is written here as one list of characters. Inside an object every property starts
with the line feed before its line, so that a list of properties is the concatenation of its members.

Results:
* `shapeType_eq_text`, `interface_eq_text`: without comments a declaration is the text of its tree.
* `itemTree_isClear`, `propertiesOf_isClear`: where all names are words, all atoms of the tree are
  known by their first characters.
-/

namespace SchemaTypes.Declaration

/-! ## Trees -/

mutual

/-- What a declaration says about a single value. -/
inductive ItemTree where
  | atom (text : String)
  | choice (values : List String)
  | object (properties : List Property)

/-- What a declaration says about a type. -/
inductive TypeTree where
  | single (item : ItemTree)
  | array (element : ItemTree)

/-- What a declaration says about a field. -/
structure Property where
  name : String
  required : Bool
  type : TypeTree

end

/-- The tree of an enum: an atom if the batch declares it. -/
def enumTree (ctx : Context) (name : Option String) (values : List String) : ItemTree :=
  match name with
  | some name => if ctx.enums.contains name then .atom name else .choice values
  | none => .choice values

mutual

/-- The tree of an item. -/
def itemTree (ctx : Context) : ItemType → ItemTree
  | .scalar kind => .atom (kind.spelling ctx.style.dateType)
  | .enum name values => enumTree ctx name values
  | .reference target => .atom target
  | .object fields => .object (propertiesOf ctx fields)

/-- The tree of a shape. -/
def shapeTree (ctx : Context) : Shape → TypeTree
  | .single item => .single (itemTree ctx item)
  | .array item _ => .array (itemTree ctx item)

/-- The properties that fields declare. -/
def propertiesOf (ctx : Context) : List Field → List Property
  | [] => []
  | ⟨name, required, shape, _, _, _, _, _⟩ :: fields =>
    ⟨name, required, shapeTree ctx shape⟩ :: propertiesOf ctx fields

end

/-! ## Texts -/

mutual

/-- The text of an item that stands `depth` levels deep. -/
def ItemTree.text (readonly : Bool) (depth : Nat) : ItemTree → List Char
  | .atom text => text.toList
  | .choice values => (union values).toList
  | .object [] => ['\x7b', '\x7d']
  | .object (p :: ps) =>
    '\x7b' :: propertiesText readonly depth (p :: ps) ++ closingText depth

/-- The text of a type that stands `depth` levels deep. -/
def TypeTree.text (readonly : Bool) (depth : Nat) : TypeTree → List Char
  | .single item => item.text readonly depth
  | .array element => arrayText (element.text readonly depth)

/-- The lines of properties whose object stands `depth` levels deep, each after a line feed. -/
def propertiesText (readonly : Bool) (depth : Nat) : List Property → List Char
  | [] => []
  | ⟨name, required, type⟩ :: ps =>
    '\n' :: propertyText readonly depth name required (type.text readonly (depth + 1)) ++
      propertiesText readonly depth ps

end

theorem propertiesText_cons (readonly : Bool) (depth : Nat) (p : Property) (ps : List Property) :
    propertiesText readonly depth (p :: ps) =
      '\n' :: propertyText readonly depth p.name p.required (p.type.text readonly (depth + 1)) ++
        propertiesText readonly depth ps := by
  cases p
  simp only [propertiesText]

/-! ## Names -/

mutual

/-- Whether the names of enums and models in an item are words. -/
def itemNamed : ItemType → Bool
  | .scalar _ => true
  | .enum name _ => name.all Text.isName
  | .reference target => Text.isName target
  | .object fields => fieldsNamed fields

/-- Whether the names of enums and models in a shape are words. -/
def shapeNamed : Shape → Bool
  | .single item => itemNamed item
  | .array item _ => itemNamed item

/-- Whether the names of enums and models in fields are words. The names of the fields do not matter. -/
def fieldsNamed : List Field → Bool
  | [] => true
  | ⟨_, _, shape, _, _, _, _, _⟩ :: fields => shapeNamed shape && fieldsNamed fields

end

/-- Whether the name of a model and the names of the enums and models in its fields are words. -/
def modelNamed (m : Model) : Bool :=
  Text.isName m.name && fieldsNamed m.fields

/-- The spelling of an object without known fields. -/
def recordSpelling : String := "Record<string, unknown>"

mutual

/-- Whether every atom in an item is a word or the spelling of an object without known fields. -/
def ItemTree.isClear : ItemTree → Bool
  | .atom text => Text.isName text || text == recordSpelling
  | .choice _ => true
  | .object properties => propertiesClear properties

/-- Whether every atom in a type is a word or the spelling of an object without known fields. -/
def TypeTree.isClear : TypeTree → Bool
  | .single item => item.isClear
  | .array element => element.isClear

/-- Whether every atom in the types of properties is a word or the spelling of an object without known
fields. -/
def propertiesClear : List Property → Bool
  | [] => true
  | ⟨_, _, type⟩ :: ps => type.isClear && propertiesClear ps

end

theorem isName_spelling {dateType : String} (h : Text.isName dateType = true) (kind : ScalarKind) :
    (Text.isName (kind.spelling dateType) || kind.spelling dateType == recordSpelling) = true := by
  cases kind with
  | date => simp [ScalarKind.spelling, h]
  | _ => simp only [ScalarKind.spelling]; decide

theorem enumTree_isClear (ctx : Context) {name : Option String} (h : name.all Text.isName = true)
    (values : List String) : (enumTree ctx name values).isClear = true := by
  cases name with
  | none => rfl
  | some name =>
    simp only [enumTree]
    split
    · simpa [ItemTree.isClear] using Or.inl h
    · rfl

mutual

theorem itemTree_isClear {ctx : Context} (hdate : Text.isName ctx.style.dateType = true) :
    ∀ item : ItemType, itemNamed item = true → (itemTree ctx item).isClear = true
  | .scalar kind, _ => isName_spelling hdate kind
  | .enum name values, h => enumTree_isClear ctx (by simpa [itemNamed] using h) values
  | .reference target, h => by
    simp only [itemNamed] at h
    simp [itemTree, ItemTree.isClear, h]
  | .object fields, h => by
    simp only [itemTree, ItemTree.isClear]
    exact propertiesOf_isClear hdate fields (by simpa [itemNamed] using h)

theorem shapeTree_isClear {ctx : Context} (hdate : Text.isName ctx.style.dateType = true) :
    ∀ shape : Shape, shapeNamed shape = true → (shapeTree ctx shape).isClear = true
  | .single item, h => by
    simp only [shapeTree, TypeTree.isClear]
    exact itemTree_isClear hdate item (by simpa [shapeNamed] using h)
  | .array item _, h => by
    simp only [shapeTree, TypeTree.isClear]
    exact itemTree_isClear hdate item (by simpa [shapeNamed] using h)

theorem propertiesOf_isClear {ctx : Context} (hdate : Text.isName ctx.style.dateType = true) :
    ∀ fields : List Field, fieldsNamed fields = true →
      propertiesClear (propertiesOf ctx fields) = true
  | [], _ => rfl
  | ⟨name, required, shape, _, _, _, _, _⟩ :: fields, h => by
    simp only [fieldsNamed, Bool.and_eq_true] at h
    simp only [propertiesOf, propertiesClear, Bool.and_eq_true]
    exact ⟨shapeTree_isClear hdate shape h.1, propertiesOf_isClear hdate fields h.2⟩

end

/-! ## A declaration is the text of its tree -/

section Style

variable {ctx : Context}

/-- A reference to a word is spelled as the word. -/
theorem shapeType_single {item : ItemType} (h : itemNamed item = true) (depth : Nat) :
    shapeType ctx depth (.single item) = itemType ctx depth item := by
  cases item with
  | reference target =>
    have hne : target ≠ "" := by
      simp only [itemNamed, Text.isName, Bool.and_eq_true, bne_iff_ne] at h
      exact h.1
    simp [shapeType, itemType, hne]
  | _ => rfl

mutual

theorem itemType_eq_text (hcomments : ctx.style.includeComments = false) (depth : Nat) :
    ∀ item : ItemType, itemNamed item = true →
      (itemType ctx depth item).toList = (itemTree ctx item).text ctx.style.readonly depth
  | .scalar kind, _ => by simp [itemType, itemTree, ItemTree.text]
  | .enum none values, _ => by simp [itemType, itemTree, enumType, enumTree, ItemTree.text]
  | .enum (some name) values, _ => by
    simp only [itemType, itemTree, enumType, enumTree]
    split <;> simp [ItemTree.text]
  | .reference target, _ => by simp [itemType, itemTree, ItemTree.text]
  | .object [], _ => by
    simp [itemType, itemTree, fieldLines, inlineObject, propertiesOf, ItemTree.text]
  | .object (f :: fields), h => by
    have hlines := fieldLines_eq_text hcomments depth (f :: fields) (by simpa [itemNamed] using h)
    rw [toList_itemType_object, hlines, itemTree]
    cases f
    simp [propertiesOf, ItemTree.text]

theorem shapeType_eq_text (hcomments : ctx.style.includeComments = false) (depth : Nat) :
    ∀ shape : Shape, shapeNamed shape = true →
      (shapeType ctx depth shape).toList = (shapeTree ctx shape).text ctx.style.readonly depth
  | .single item, h => by
    rw [shapeType_single (by simpa [shapeNamed] using h), shapeTree, TypeTree.text]
    exact itemType_eq_text hcomments depth item (by simpa [shapeNamed] using h)
  | .array item _, h => by
    have hitem := itemType_eq_text hcomments depth item (by simpa [shapeNamed] using h)
    simp only [shapeType, shapeTree, TypeTree.text, toList_arrayType, hitem]

theorem fieldLines_eq_text (hcomments : ctx.style.includeComments = false) (depth : Nat) :
    ∀ fields : List Field, fieldsNamed fields = true →
      feedLines (fieldLines ctx depth fields) =
        propertiesText ctx.style.readonly depth (propertiesOf ctx fields)
  | [], _ => by simp [fieldLines, feedLines, propertiesOf, propertiesText]
  | ⟨name, required, shape, _, _, _, _, _⟩ :: fields, h => by
    simp only [fieldsNamed, Bool.and_eq_true] at h
    rw [feedLines_fieldLines_cons, descriptionLines_eq_nil hcomments,
      fieldLines_eq_text hcomments depth fields h.2, shapeType_eq_text hcomments (depth + 1) shape h.1]
    simp [propertiesOf, propertiesText]

end

theorem interface_eq_text (hcomments : ctx.style.includeComments = false) {m : Model}
    (h : fieldsNamed m.fields = true) :
    (interface ctx m).toList = "export interface ".toList ++ m.name.toList ++ " \x7b".toList ++
      propertiesText ctx.style.readonly 0 (propertiesOf ctx m.fields) ++ closingText 0 := by
  have hlines := fieldLines_eq_text hcomments 0 m.fields h
  unfold feedLines at hlines
  simp [interface, hcomments, Text.toList_joinLines_cons, hlines, closingText, indent]

end Style

end SchemaTypes.Declaration
