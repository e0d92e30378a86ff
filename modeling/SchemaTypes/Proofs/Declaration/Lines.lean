import SchemaTypes.Declaration.Interface

/-!
# The lines of a declaration

With or without comments, a declaration is a list of lines. Each line is taken with the line feed before
it, so that lists of lines are put together by putting their texts together: those of the fields of an
object follow one another, each behind the line of its description, if that is written.

Results:
* `feedLines_append`, `feed_joinLines`: lists of lines and texts.
* `feedLines_propertyLines`: the lines of a property, with that of its description.
* `feedLines_fieldLines_cons`, `toList_itemType_object`: the lines of fields, and of an object.
* `feed_interface`: the lines of a declaration.
-/

namespace SchemaTypes.Declaration

/-! ## Texts of types and properties -/

/-- The text of an array from that of its elements. -/
def arrayText (element : List Char) : List Char :=
  if occursIn " | ".toList element && element.head? != some '\x7b' then
    '(' :: element ++ [')', '[', ']']
  else element ++ ['[', ']']

/-- What stands behind the type of a property. -/
def clauseEnd (required : Bool) : List Char :=
  (if required then [] else " | null".toList) ++ [';']

/-- What stands between the key of a property and its type. -/
def clauseStart (required : Bool) : List Char :=
  (if required then [] else ['?']) ++ [':', ' ']

/-- What stands before the key of a property. -/
def linePad (readonly : Bool) (depth : Nat) : List Char :=
  (indent (depth + 1)).toList ++ if readonly then "readonly ".toList else []

/-- The line of a property from the text of its type. -/
def propertyText (readonly : Bool) (depth : Nat) (name : String) (required : Bool)
    (type : List Char) : List Char :=
  linePad readonly depth ++ (propertyKey name).toList ++ clauseStart required ++ type ++
    clauseEnd required

/-- The line that closes an object, after the line feed before it. -/
def closingText (depth : Nat) : List Char :=
  '\n' :: (indent depth).toList ++ ['\x7d']

theorem toList_arrayType (element : String) :
    (arrayType element).toList = arrayText element.toList := by
  unfold arrayType arrayText
  split <;> simp

/-! ## Lists of lines -/

/-- Lines, each after a line feed. -/
def feedLines (lines : List String) : List Char :=
  lines.flatMap fun line => '\n' :: line.toList

theorem feedLines_append (lines more : List String) :
    feedLines (lines ++ more) = feedLines lines ++ feedLines more := by
  simp [feedLines]

@[simp] theorem feedLines_nil : feedLines [] = [] := rfl

theorem feedLines_cons (line : String) (lines : List String) :
    feedLines (line :: lines) = '\n' :: line.toList ++ feedLines lines := by
  simp [feedLines]

/-- The text of some lines, after a line feed. -/
theorem feed_joinLines (lines : List String) (hne : lines ≠ []) :
    '\n' :: (Text.joinLines lines).toList = feedLines lines := by
  obtain ⟨line, lines, rfl⟩ := List.exists_cons_of_ne_nil hne
  rw [Text.toList_joinLines_cons, feedLines_cons]
  rfl

/-! ## The lines of a declaration -/

theorem toList_inlineObject (depth : Nat) {lines : List String} (hne : lines ≠ []) :
    (inlineObject depth lines).toList = '\x7b' :: feedLines lines ++ closingText depth := by
  have hempty : lines.isEmpty = false := by simpa using hne
  simp [inlineObject, hempty, feedLines, closingText, Text.toList_joinLines_cons]

/-- The line of a description above the property that it describes. -/
def descriptionLines (style : Style) (depth : Nat) : Option String → List String
  | none => []
  | some text =>
    if style.includeComments && text != "" then
      [indent (depth + 1) ++ "/** " ++ text ++ " */"]
    else []

theorem descriptionLines_eq_nil {style : Style} (h : style.includeComments = false) (depth : Nat)
    (description : Option String) : descriptionLines style depth description = [] := by
  cases description <;> simp [descriptionLines, h]

/-- A property is the line of its description and a line of its own. -/
theorem feedLines_propertyLines (style : Style) (depth : Nat) (name : String) (required : Bool)
    (description : Option String) (type : String) :
    feedLines (propertyLines style depth name required description (fieldType required type)) =
      feedLines (descriptionLines style depth description) ++
        '\n' :: propertyText style.readonly depth name required type.toList := by
  have hline : (indent (depth + 1) ++ (if style.readonly then "readonly " else "") ++
      propertyKey name ++ (if required then "" else "?") ++ ": " ++ fieldType required type ++
        ";").toList = propertyText style.readonly depth name required type.toList := by
    cases style.readonly <;> cases required <;>
      simp [propertyText, linePad, clauseStart, clauseEnd, fieldType]
  cases description <;>
    simp only [propertyLines, descriptionLines, feedLines_append, feedLines_cons, feedLines_nil, hline,
      List.append_nil]

theorem propertyLines_ne_nil (style : Style) (depth : Nat) (name : String) (required : Bool)
    (description : Option String) (type : String) :
    propertyLines style depth name required description type ≠ [] := by
  simp [propertyLines]

variable (ctx : Context) (depth : Nat)

theorem feedLines_fieldLines_cons (f : Field) (fields : List Field) :
    feedLines (fieldLines ctx depth (f :: fields)) =
      feedLines (descriptionLines ctx.style depth f.description) ++
        ('\n' :: propertyText ctx.style.readonly depth f.name f.required
          (shapeType ctx (depth + 1) f.shape).toList ++ feedLines (fieldLines ctx depth fields)) := by
  obtain ⟨name, required, shape, _, _, _, _, description⟩ := f
  rw [fieldLines, feedLines_append, feedLines_propertyLines, List.append_assoc]

theorem toList_itemType_object (f : Field) (fields : List Field) :
    (itemType ctx depth (.object (f :: fields))).toList =
      '\x7b' :: feedLines (fieldLines ctx depth (f :: fields)) ++ closingText depth := by
  have hne : fieldLines ctx depth (f :: fields) ≠ [] := by
    cases f
    simp [fieldLines, propertyLines_ne_nil]
  rw [itemType, toList_inlineObject depth hne]

/-- The lines of a declaration: comments, if they are written, its first line, the fields and the line
that closes it. -/
theorem feed_interface (m : Model) :
    '\n' :: (interface ctx m).toList =
      feedLines (if ctx.style.includeComments then interfaceComments m else []) ++
        ('\n' :: ("export interface " ++ m.name ++ " \x7b").toList ++
          feedLines (fieldLines ctx 0 m.fields) ++ closingText 0) := by
  rw [interface, feed_joinLines _ (by simp)]
  simp [feedLines_append, feedLines_cons, closingText, indent]

end SchemaTypes.Declaration
