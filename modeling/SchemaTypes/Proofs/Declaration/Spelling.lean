import SchemaTypes.Proofs.Declaration.Lines
import SchemaTypes.References.Graph

/-!
# The names that a declaration spells

A declaration is a row of pieces: the names of declared enums, the targets of references, and the text
between them. Put together the pieces are the declaration, so the pieces of the first two kinds say which
names it spells, where and in which order.

Results:
* `itemType_eq_pieces`, `interface_eq_pieces`: a declaration is put together from its pieces.
* `enums_interfacePieces`: only enums of the batch are spelled by name.
* `targets_interfacePieces`: the targets that are spelled are the names to which the model refers.
-/

namespace SchemaTypes.Declaration

/-! ## Pieces -/

/-- A piece of a declaration. -/
inductive Piece where
  | text (cs : List Char)
  | enumName (name : String)
  | target (name : String)

namespace Piece

/-- The characters of a piece. -/
def chars : Piece → List Char
  | text cs => cs
  | enumName name => name.toList
  | target name => name.toList

/-- The enum that a piece names. -/
def enumName? : Piece → Option String
  | enumName name => some name
  | _ => none

/-- The target that a piece names. -/
def target? : Piece → Option String
  | target name => some name
  | _ => none

end Piece

/-- The characters of pieces. -/
def piecesText (ps : List Piece) : List Char :=
  ps.flatMap Piece.chars

/-- The enums that pieces name, in order. -/
def enumsIn (ps : List Piece) : List String :=
  ps.filterMap Piece.enumName?

/-- The targets that pieces name, in order. -/
def targetsIn (ps : List Piece) : List String :=
  ps.filterMap Piece.target?

section Pieces

variable (cs : List Char) (p : Piece) (ps qs : List Piece)

@[simp] theorem piecesText_nil : piecesText [] = [] := rfl

@[simp] theorem piecesText_cons : piecesText (p :: ps) = p.chars ++ piecesText ps := rfl

@[simp] theorem piecesText_append : piecesText (ps ++ qs) = piecesText ps ++ piecesText qs := by
  simp [piecesText]

@[simp] theorem enumsIn_nil : enumsIn [] = [] := rfl

@[simp] theorem enumsIn_text_cons : enumsIn (.text cs :: ps) = enumsIn ps := rfl

@[simp] theorem enumsIn_append : enumsIn (ps ++ qs) = enumsIn ps ++ enumsIn qs := by
  simp [enumsIn]

@[simp] theorem targetsIn_nil : targetsIn [] = [] := rfl

@[simp] theorem targetsIn_text_cons : targetsIn (.text cs :: ps) = targetsIn ps := rfl

@[simp] theorem targetsIn_append : targetsIn (ps ++ qs) = targetsIn ps ++ targetsIn qs := by
  simp [targetsIn]

end Pieces

/-! ## The pieces of a declaration -/

/-- The pieces of an enum: its name if the batch declares it, and its values otherwise. -/
def enumPieces (ctx : Context) (name : Option String) (values : List String) : List Piece :=
  match name with
  | some name => if ctx.enums.contains name then [.enumName name] else [.text (union values).toList]
  | none => [.text (union values).toList]

/-- The pieces of an array from those of its elements. -/
def arrayPieces (element : List Piece) : List Piece :=
  if occursIn " | ".toList (piecesText element) && (piecesText element).head? != some '\x7b' then
    .text ['('] :: element ++ [.text [')', '[', ']']]
  else element ++ [.text ['[', ']']]

/-- What stands before the type of a property: the line of its description and the front of its own. -/
def propertyFront (style : Style) (depth : Nat) (name : String) (required : Bool)
    (description : Option String) : List Char :=
  feedLines (descriptionLines style depth description) ++
    '\n' :: linePad style.readonly depth ++ (propertyKey name).toList ++ clauseStart required

mutual

/-- The pieces of an item that stands `depth` levels deep. -/
def itemPieces (ctx : Context) (depth : Nat) : ItemType → List Piece
  | .scalar kind => [.text (kind.spelling ctx.style.dateType).toList]
  | .enum name values => enumPieces ctx name values
  | .reference target => [.target target]
  | .object [] => [.text ['\x7b', '\x7d']]
  | .object (f :: fields) =>
    .text ['\x7b'] :: fieldsPieces ctx depth (f :: fields) ++ [.text (closingText depth)]

/-- The pieces of a shape that stands `depth` levels deep. A reference to nothing has no target. -/
def shapePieces (ctx : Context) (depth : Nat) : Shape → List Piece
  | .single (.reference target) =>
    if target == "" then [.text (ScalarKind.unknown.spelling ctx.style.dateType).toList]
    else [.target target]
  | .single item => itemPieces ctx depth item
  | .array item _ => arrayPieces (itemPieces ctx depth item)

/-- The pieces of fields whose object stands `depth` levels deep. -/
def fieldsPieces (ctx : Context) (depth : Nat) : List Field → List Piece
  | [] => []
  | ⟨name, required, shape, _, _, _, _, description⟩ :: fields =>
    .text (propertyFront ctx.style depth name required description) ::
      shapePieces ctx (depth + 1) shape ++ .text (clauseEnd required) :: fieldsPieces ctx depth fields

end

/-- The pieces of the declaration of a model. -/
def interfacePieces (ctx : Context) (m : Model) : List Piece :=
  .text (Text.joinLines ((if ctx.style.includeComments then interfaceComments m else []) ++
      ["export interface " ++ m.name ++ " \x7b"])).toList ::
    fieldsPieces ctx 0 m.fields ++ [.text (closingText 0)]

/-! ## A declaration is put together from its pieces -/

section Text

variable (ctx : Context)

theorem toList_enumType (name : Option String) (values : List String) :
    (enumType ctx name values).toList = piecesText (enumPieces ctx name values) := by
  cases name with
  | none => simp [enumType, enumPieces, Piece.chars]
  | some name =>
    simp only [enumType, enumPieces]
    split <;> simp [Piece.chars]

theorem arrayText_piecesText (element : List Piece) :
    arrayText (piecesText element) = piecesText (arrayPieces element) := by
  unfold arrayText arrayPieces
  split <;> simp [Piece.chars]

mutual

theorem itemType_eq_pieces : ∀ (item : ItemType) (depth : Nat),
    (itemType ctx depth item).toList = piecesText (itemPieces ctx depth item)
  | .scalar kind, depth => by simp [itemType, itemPieces, Piece.chars]
  | .enum name values, depth => by
    rw [itemType, itemPieces]
    exact toList_enumType ctx name values
  | .reference target, depth => by simp [itemType, itemPieces, Piece.chars]
  | .object [], depth => by simp [itemType, itemPieces, fieldLines, inlineObject, Piece.chars]
  | .object (f :: fields), depth => by
    rw [toList_itemType_object, fieldLines_eq_pieces (f :: fields) depth]
    simp [itemPieces, Piece.chars]

theorem shapeType_eq_pieces : ∀ (shape : Shape) (depth : Nat),
    (shapeType ctx depth shape).toList = piecesText (shapePieces ctx depth shape)
  | .single (.reference target), depth => by
    simp only [shapeType, shapePieces]
    split <;> simp [Piece.chars]
  | .single (.scalar kind), depth => itemType_eq_pieces (.scalar kind) depth
  | .single (.enum name values), depth => itemType_eq_pieces (.enum name values) depth
  | .single (.object fields), depth => itemType_eq_pieces (.object fields) depth
  | .array item _, depth => by
    rw [shapeType, toList_arrayType, itemType_eq_pieces item depth, arrayText_piecesText, shapePieces]

theorem fieldLines_eq_pieces : ∀ (fields : List Field) (depth : Nat),
    feedLines (fieldLines ctx depth fields) = piecesText (fieldsPieces ctx depth fields)
  | [], depth => by simp [fieldLines, fieldsPieces]
  | ⟨name, required, shape, _, _, _, _, description⟩ :: fields, depth => by
    rw [feedLines_fieldLines_cons, shapeType_eq_pieces shape, fieldLines_eq_pieces fields]
    simp [fieldsPieces, Piece.chars, propertyFront, propertyText]

end

/-- The declaration of a model is put together from its pieces. -/
theorem interface_eq_pieces (m : Model) :
    (interface ctx m).toList = piecesText (interfacePieces ctx m) := by
  have hfront := feed_joinLines ((if ctx.style.includeComments then interfaceComments m else []) ++
    ["export interface " ++ m.name ++ " \x7b"]) (by simp)
  have htext : '\n' :: (interface ctx m).toList = '\n' :: piecesText (interfacePieces ctx m) := by
    simp only [interfacePieces, piecesText_append, piecesText_cons, Piece.chars, ← List.cons_append,
      hfront]
    rw [feed_interface, fieldLines_eq_pieces ctx m.fields 0]
    simp [feedLines_append, feedLines_cons]
  exact (List.cons.inj htext).2

end Text

/-! ## Enums -/

section Enums

variable (ctx : Context)

theorem enumsIn_arrayPieces (element : List Piece) :
    enumsIn (arrayPieces element) = enumsIn element := by
  unfold arrayPieces
  split <;> simp

theorem enumsIn_enumPieces (enumName : Option String) (values : List String) {name : String}
    (h : name ∈ enumsIn (enumPieces ctx enumName values)) : name ∈ ctx.enums := by
  unfold enumPieces at h
  split at h
  · split at h
    · rename_i hdeclared
      obtain rfl : name = _ := by simpa [enumsIn, Piece.enumName?] using h
      exact List.contains_iff_mem.mp hdeclared
    · simp at h
  · simp at h

mutual

theorem enumsIn_itemPieces {name : String} : ∀ (item : ItemType) (depth : Nat),
    name ∈ enumsIn (itemPieces ctx depth item) → name ∈ ctx.enums
  | .scalar _, _, h => by simp [itemPieces] at h
  | .enum enumName values, _, h => by
    rw [itemPieces] at h
    exact enumsIn_enumPieces ctx enumName values h
  | .reference _, _, h => by simp [itemPieces, enumsIn, Piece.enumName?] at h
  | .object [], _, h => by simp [itemPieces] at h
  | .object (f :: fields), depth, h => by
    exact enumsIn_fieldsPieces (f :: fields) depth (by simpa [itemPieces] using h)

theorem enumsIn_shapePieces {name : String} : ∀ (shape : Shape) (depth : Nat),
    name ∈ enumsIn (shapePieces ctx depth shape) → name ∈ ctx.enums
  | .single (.reference _), _, h => by
    rw [shapePieces] at h
    split at h <;> simp [enumsIn, Piece.enumName?] at h
  | .single (.scalar kind), depth, h => enumsIn_itemPieces (.scalar kind) depth h
  | .single (.enum enumName values), depth, h => enumsIn_itemPieces (.enum enumName values) depth h
  | .single (.object fields), depth, h => enumsIn_itemPieces (.object fields) depth h
  | .array item _, depth, h => by
    rw [shapePieces, enumsIn_arrayPieces] at h
    exact enumsIn_itemPieces item depth h

theorem enumsIn_fieldsPieces {name : String} : ∀ (fields : List Field) (depth : Nat),
    name ∈ enumsIn (fieldsPieces ctx depth fields) → name ∈ ctx.enums
  | [], _, h => by simp [fieldsPieces] at h
  | ⟨_, _, shape, _, _, _, _, _⟩ :: fields, depth, h => by
    simp only [fieldsPieces, List.cons_append, enumsIn_text_cons, enumsIn_append,
      List.mem_append] at h
    rcases h with hshape | hfields
    · exact enumsIn_shapePieces shape (depth + 1) hshape
    · exact enumsIn_fieldsPieces fields depth hfields

end

/-- Only enums that the batch declares are spelled by name. -/
theorem enums_interfacePieces {m : Model} {name : String}
    (h : name ∈ enumsIn (interfacePieces ctx m)) : name ∈ ctx.enums :=
  enumsIn_fieldsPieces ctx m.fields 0 (by simpa [interfacePieces] using h)

end Enums

/-! ## Targets -/

mutual

/-- Whether every reference in an item has a target. -/
def itemTargeted : ItemType → Bool
  | .scalar _ => true
  | .enum _ _ => true
  | .reference target => target != ""
  | .object fields => fieldsTargeted fields

/-- Whether every reference in a shape has a target. -/
def shapeTargeted : Shape → Bool
  | .single item => itemTargeted item
  | .array item _ => itemTargeted item

/-- Whether every reference in fields has a target. -/
def fieldsTargeted : List Field → Bool
  | [] => true
  | ⟨_, _, shape, _, _, _, _, _⟩ :: fields => shapeTargeted shape && fieldsTargeted fields

end

/-- The names that a shape refers to. -/
def shapeTargets : Shape → List String
  | .single item => item.targets
  | .array item _ => item.targets

theorem targetsOf_cons (name : String) (required : Bool) (shape : Shape) (isSelf : Bool)
    (defaultValue : Option String) (isPrimary isUnique : Bool) (description : Option String)
    (fields : List Field) :
    targetsOf (⟨name, required, shape, isSelf, defaultValue, isPrimary, isUnique, description⟩ ::
      fields) = shapeTargets shape ++ targetsOf fields := by
  cases shape <;> simp only [targetsOf, Field.targets, shapeTargets]

section Targets

variable (ctx : Context)

theorem targetsIn_enumPieces (name : Option String) (values : List String) :
    targetsIn (enumPieces ctx name values) = [] := by
  unfold enumPieces
  split
  · split <;> rfl
  · rfl

theorem targetsIn_arrayPieces (element : List Piece) :
    targetsIn (arrayPieces element) = targetsIn element := by
  unfold arrayPieces
  split <;> simp

/-- A shape of one item with a target has the pieces of the item. -/
theorem shapePieces_single {item : ItemType} (h : itemTargeted item = true) (depth : Nat) :
    shapePieces ctx depth (.single item) = itemPieces ctx depth item := by
  cases item with
  | reference target =>
    have hne : (target == "") = false := by simpa [itemTargeted] using h
    simp [shapePieces, itemPieces, hne]
  | _ => simp only [shapePieces]

mutual

theorem targetsIn_itemPieces : ∀ (item : ItemType) (depth : Nat), itemTargeted item = true →
    targetsIn (itemPieces ctx depth item) = item.targets
  | .scalar kind, _, _ => by simp [itemPieces, ItemType.targets]
  | .enum name values, _, _ => by
    simp only [itemPieces, ItemType.targets]
    exact targetsIn_enumPieces ctx name values
  | .reference target, _, h => by
    have hne : (target == "") = false := by simpa [itemTargeted] using h
    simp [itemPieces, ItemType.targets, targetsIn, Piece.target?, hne]
  | .object [], _, _ => by simp [itemPieces, ItemType.targets, targetsOf]
  | .object (f :: fields), depth, h => by
    have hfields := targetsIn_fieldsPieces (f :: fields) depth (by simpa only [itemTargeted] using h)
    simp [itemPieces, ItemType.targets, hfields]

theorem targetsIn_shapePieces : ∀ (shape : Shape) (depth : Nat), shapeTargeted shape = true →
    targetsIn (shapePieces ctx depth shape) = shapeTargets shape
  | .single item, depth, h => by
    rw [shapeTargeted] at h
    rw [shapePieces_single ctx h, shapeTargets, targetsIn_itemPieces item depth h]
  | .array item _, depth, h => by
    rw [shapeTargeted] at h
    rw [shapePieces, targetsIn_arrayPieces, shapeTargets, targetsIn_itemPieces item depth h]

theorem targetsIn_fieldsPieces : ∀ (fields : List Field) (depth : Nat),
    fieldsTargeted fields = true → targetsIn (fieldsPieces ctx depth fields) = targetsOf fields
  | [], _, _ => rfl
  | ⟨name, required, shape, _, _, _, _, description⟩ :: fields, depth, h => by
    simp only [fieldsTargeted, Bool.and_eq_true] at h
    simp [fieldsPieces, targetsOf_cons, targetsIn_shapePieces shape (depth + 1) h.1,
      targetsIn_fieldsPieces fields depth h.2]

end

/-- The targets that the declaration of a model spells are the names to which it refers. -/
theorem targets_interfacePieces {m : Model} (h : fieldsTargeted m.fields = true) :
    targetsIn (interfacePieces ctx m) = m.targets := by
  simp [interfacePieces, Model.targets, targetsIn_fieldsPieces ctx m.fields 0 h]

end Targets

end SchemaTypes.Declaration
