import SchemaTypes.Proofs.Declaration.Clearing
import SchemaTypes.Proofs.Declaration.Unambiguous

/-!
# Comments in a declaration

The comments of a declaration are lines of their own, and their texts are those of the schema. Where no
description holds the characters that close a comment, each comment ends where it is meant to end, so
that clearing the declaration of its comments yields the declaration without comments. Literals are
escaped and end where they are meant to end whatever they hold. The other names are written as they
stand, so they must be names that a reader leaves as it comes to them.

A description that closes its comment is read as part of the declaration from there on. It may be harmless
all the same, if it opens another comment and nothing stands between the two. What a description leaves can be
told from its own comment if code is behind that. A description that leaves a literal open is read on into the
declaration.

Results:
* `isComment_line`, `docComment_isComment`: a description is one comment.
* `withoutComments_interface_iff`: what it takes that comments which end in code are inert.
* `withoutComments_interface`: comments are inert.
-/

namespace SchemaTypes.Declaration

/-! ## Names and descriptions -/

/-- Whether a name may stand in a declaration as it is: it holds no comment and closes its literals. -/
def isInert (name : String) : Bool :=
  Place.code.marks none name.toList == name.toList.map some &&
    Place.code.through none name.toList == .code

/-- Whether a description closes the comment in which it stands. -/
def endsComment (description : String) : Bool :=
  occursIn ['*', '/'] description.toList

mutual

/-- Whether the names of enums and models in an item are inert and no description closes its comment. -/
def itemInert (ctx : Context) : ItemType → Bool
  | .scalar _ => true
  | .enum name _ => name.all fun name => !ctx.enums.contains name || isInert name
  | .reference target => isInert target
  | .object fields => fieldsInert ctx fields

/-- Whether the names of enums and models in a shape are inert and no description closes its comment. -/
def shapeInert (ctx : Context) : Shape → Bool
  | .single item => itemInert ctx item
  | .array item _ => itemInert ctx item

/-- Whether the names of enums and models in fields are inert and no description closes its comment. -/
def fieldsInert (ctx : Context) : List Field → Bool
  | [] => true
  | ⟨_, _, shape, _, _, _, _, description⟩ :: fields =>
    description.all (fun text => !endsComment text) && shapeInert ctx shape && fieldsInert ctx fields

end

/-- Whether the names that the declaration of a model writes as they stand are inert, and no description
closes its comment. -/
def modelInert (ctx : Context) (m : Model) : Bool :=
  isInert m.name && m.description.all (fun text => !endsComment text) && fieldsInert ctx m.fields

mutual

/-- Whether the names of enums and models in an item are inert. -/
def itemNamesInert (ctx : Context) : ItemType → Bool
  | .scalar _ => true
  | .enum name _ => name.all fun name => !ctx.enums.contains name || isInert name
  | .reference target => isInert target
  | .object fields => fieldsNamesInert ctx fields

/-- Whether the names of enums and models in a shape are inert. -/
def shapeNamesInert (ctx : Context) : Shape → Bool
  | .single item => itemNamesInert ctx item
  | .array item _ => itemNamesInert ctx item

/-- Whether the names of enums and models in fields are inert. -/
def fieldsNamesInert (ctx : Context) : List Field → Bool
  | [] => true
  | ⟨_, _, shape, _, _, _, _, _⟩ :: fields => shapeNamesInert ctx shape && fieldsNamesInert ctx fields

end

/-- Whether the names that the declaration of a model writes as they stand are inert. -/
def modelNamesInert (ctx : Context) (m : Model) : Bool :=
  isInert m.name && fieldsNamesInert ctx m.fields

/-- The comment for the description of a field. -/
def descriptionComments : Option String → List String
  | none => []
  | some text => if text == "" then [] else ["/** " ++ text ++ " */"]

mutual

/-- The comments in the type of an item, in their order. -/
def itemComments : ItemType → List String
  | .scalar _ => []
  | .enum _ _ => []
  | .reference _ => []
  | .object fields => fieldsComments fields

/-- The comments in the type of a shape, in their order. -/
def shapeComments : Shape → List String
  | .single item => itemComments item
  | .array item _ => itemComments item

/-- The comments of fields, in their order. -/
def fieldsComments : List Field → List String
  | [] => []
  | ⟨_, _, shape, _, _, _, _, description⟩ :: fields =>
    descriptionComments description ++ (shapeComments shape ++ fieldsComments fields)

end

/-- The comment for the description of a model. -/
def modelDescriptionComments : Option String → List String
  | none => []
  | some text => if text == "" then [] else [Text.joinLines (docComment text)]

/-- The comment that names the source of a model. -/
def sourceComment (m : Model) : String :=
  "/** Auto-generated from " ++ m.sourceKind.text ++ " schema */"

/-- The comments in the declaration of a model, in their order. -/
def modelComments (m : Model) : List String :=
  modelDescriptionComments m.description ++ (sourceComment m :: fieldsComments m.fields)

theorem reads_of_isInert {name : String} (h : isInert name = true) :
    Reads name.toList (name.toList.map some) := by
  rw [isInert, Bool.and_eq_true, beq_iff_eq] at h
  exact h.1 ▸ reads_of_endsInCode h.2

/-- A class of characters that leaves out the slash and the quotes is one of plain characters. -/
theorem isPlain_of_class {p : Char → Bool} (hp : ∀ d ∈ "/'\"`".toList, p d = false) {c : Char}
    (h : p c = true) : isPlain c = true := by
  have hne : ∀ d ∈ "/'\"`".toList, c ≠ d := by
    rintro d hd rfl
    exact absurd h (by simp [hp c hd])
  have hquote : opensLiteral c = false := by
    rw [opensLiteral, ← Bool.not_eq_true, List.contains_iff_mem]
    exact fun hmem => hne c (List.mem_cons_of_mem _ hmem) rfl
  simp [isPlain, hquote, hne '/' List.mem_cons_self]

/-! ## Descriptions are comments -/

/-- A description in a comment of one line. -/
theorem isComment_line (text : String) (h : endsComment text = false) :
    IsComment ("/** " ++ text ++ " */").toList := by
  refine ⟨['*', ' '] ++ (text.toList ++ [' ']), by simp, ?_⟩
  have hback : occursIn ['*', '/'] (text.toList ++ [' ', '*']) = false :=
    occursIn_pair_append h (by decide) (Or.inr (by decide))
  simpa using occursIn_pair_append (s := ['*', ' ']) (by decide) hback (Or.inl (by decide))

/-- The line of a comment for a line of a description. -/
def commentLine (line : List Char) : String :=
  String.ofList (Text.trimEnd (" * ".toList ++ line))

theorem occursIn_commentLine {line : List Char} (h : occursIn ['*', '/'] line = false) :
    occursIn ['*', '/'] (commentLine line).toList = false := by
  rw [commentLine, String.toList_ofList]
  exact occursIn_eq_false_of_infix (Text.trimEnd_prefix _).isInfix
    (occursIn_pair_append (by decide) h (Or.inl (by decide)))

theorem head?_feedLines_ne (lines : List String) {c : Char} (h : c ≠ '\n') :
    (feedLines lines).head? ≠ some c := by
  cases lines with
  | nil => simp
  | cons line lines => simpa [feedLines_cons] using Ne.symm h

theorem occursIn_commentLines {lines : List (List Char)}
    (h : ∀ line ∈ lines, occursIn ['*', '/'] line = false) :
    occursIn ['*', '/'] (feedLines (lines.map commentLine)) = false := by
  induction lines with
  | nil => rfl
  | cons line lines ih =>
    have hline := occursIn_commentLine (h line List.mem_cons_self)
    rw [List.map_cons, feedLines_cons]
    refine occursIn_pair_append ?_ (ih fun l hl => h l (List.mem_cons_of_mem line hl))
      (Or.inr (head?_feedLines_ne _ (by decide)))
    exact occursIn_pair_append (s := ['\n']) (by decide) hline (Or.inl (by decide))

theorem docComment_ne_nil (text : String) : docComment text ≠ [] := by
  unfold docComment
  split <;> simp

/-- A description of a model is one comment, on one line or on several. -/
theorem docComment_isComment (text : String) (h : endsComment text = false) :
    IsComment (Text.joinLines (docComment text)).toList := by
  have hlines : ∀ line ∈ Text.splitLines text.toList, occursIn ['*', '/'] line = false :=
    fun line hline => occursIn_eq_false_of_infix ((Text.splitLines_infix _).2 line hline) h
  cases hsplit : Text.splitLines text.toList with
  | nil => simpa [docComment, hsplit, Text.joinLines] using isComment_line text h
  | cons first more =>
    rw [hsplit] at hlines
    cases more with
    | nil =>
      have hfirst : endsComment (String.ofList first) = false := by
        simpa [endsComment] using hlines first List.mem_cons_self
      simpa [docComment, hsplit, Text.joinLines] using isComment_line _ hfirst
    | cons second more =>
      have hdoc : docComment text =
          "/**" :: (first :: second :: more).map commentLine ++ [" */"] := by
        rw [docComment, hsplit]
        rfl
      have hback : occursIn ['*', '/']
          (feedLines ((first :: second :: more).map commentLine) ++ ['\n', ' ', '*']) = false :=
        occursIn_pair_append (occursIn_commentLines hlines) (by decide) (Or.inr (by decide))
      have htext : '\n' :: (Text.joinLines (docComment text)).toList = '\n' :: '/' :: '*' :: ('*' ::
          (feedLines ((first :: second :: more).map commentLine) ++ ['\n', ' ']) ++ ['*', '/']) := by
        rw [feed_joinLines _ (docComment_ne_nil text), hdoc]
        simp [feedLines_append, feedLines_cons]
      refine ⟨_, List.cons_inj_right _ |>.mp htext, ?_⟩
      simpa using occursIn_pair_append (s := ['*']) (by decide) hback
        (Or.inr (by simp [feedLines_cons]))

mutual

/-- If an item is inert, its names are, and its comments are closed at their ends. -/
theorem inert_item {ctx : Context} : ∀ item : ItemType, itemInert ctx item = true →
    itemNamesInert ctx item = true ∧ ∀ comment ∈ itemComments item, IsComment comment.toList
  | .scalar _, _ => by simp [itemNamesInert, itemComments]
  | .enum _ _, h => ⟨h, by simp [itemComments]⟩
  | .reference _, h => ⟨h, by simp [itemComments]⟩
  | .object fields, h => inert_fields fields h

/-- If a shape is inert, its names are, and its comments are closed at their ends. -/
theorem inert_shape {ctx : Context} : ∀ shape : Shape, shapeInert ctx shape = true →
    shapeNamesInert ctx shape = true ∧ ∀ comment ∈ shapeComments shape, IsComment comment.toList
  | .single item, h => inert_item item h
  | .array item _, h => inert_item item h

/-- If fields are inert, their names are, and their comments are closed at their ends. -/
theorem inert_fields {ctx : Context} : ∀ fields : List Field, fieldsInert ctx fields = true →
    fieldsNamesInert ctx fields = true ∧ ∀ comment ∈ fieldsComments fields, IsComment comment.toList
  | [], _ => by simp [fieldsNamesInert, fieldsComments]
  | ⟨_, _, shape, _, _, _, _, description⟩ :: fields, h => by
    simp only [fieldsInert, Bool.and_eq_true] at h
    obtain ⟨hshapeNames, hshape⟩ := inert_shape shape h.1.2
    obtain ⟨hnames, hfields⟩ := inert_fields fields h.2
    refine ⟨by simp [fieldsNamesInert, hshapeNames, hnames], ?_⟩
    rw [fieldsComments, List.forall_mem_append, List.forall_mem_append]
    refine ⟨?_, hshape, hfields⟩
    cases description with
    | none => simp [descriptionComments]
    | some text =>
      have hcomment := isComment_line text (by simpa using h.1.1)
      unfold descriptionComments
      split <;> simp_all

end

/-! ## Types -/

theorem cleared_of_isInert {name : String} (h : isInert name = true) :
    Cleared name.toList name.toList [] :=
  cleared_of_reads (reads_of_isInert h)

theorem cleared_plain {t : List Char} (h : t.all isPlain = true) : Cleared t t [] :=
  cleared_of_reads (reads_plain h)

theorem cleared_literal (value : String) :
    Cleared (literal value).toList (literal value).toList [] :=
  cleared_of_reads (reads_literal value)

theorem cleared_moreValues (values : List String) :
    Cleared (moreValues values) (moreValues values) [] := by
  induction values with
  | nil => exact cleared_plain (by simp [moreValues])
  | cons value values ih =>
    have hhead : (moreValues values).head? ≠ some '*' := by
      cases values <;> simp [moreValues]
    have hvalue := (cleared_literal value).append ih hhead
    simpa [moreValues] using hvalue.plain_append (r := " | ".toList) (by decide)

theorem cleared_union (values : List String) :
    Cleared (union values).toList (union values).toList [] := by
  cases values with
  | nil => exact cleared_plain (by decide)
  | cons value values =>
    rw [toList_union_cons]
    refine (cleared_literal value).append (cleared_moreValues values) ?_
    cases values <;> simp [moreValues]

theorem cleared_enumType (ctx : Context) {name : Option String}
    (h : (name.all fun name => !ctx.enums.contains name || isInert name) = true)
    (values : List String) :
    Cleared (enumType ctx name values).toList (enumType ctx name values).toList [] := by
  cases name with
  | none => exact cleared_union values
  | some name =>
    simp only [enumType]
    split
    · rename_i hdeclared
      exact cleared_of_isInert (by simpa [List.contains_iff_mem.mp hdeclared] using h)
    · exact cleared_union values

theorem cleared_spelling {dateType : String} (h : isInert dateType = true) (kind : ScalarKind) :
    Cleared (kind.spelling dateType).toList (kind.spelling dateType).toList [] := by
  cases kind with
  | date => exact cleared_of_isInert h
  | _ =>
    simp only [ScalarKind.spelling]
    exact cleared_plain (by decide)

theorem cleared_propertyKey (name : String) :
    Cleared (propertyKey name).toList (propertyKey name).toList [] := by
  rcases propertyKey_cases name with hkey | ⟨hkey, word, tail, hname, hword, htail⟩
  · rw [hkey]
    exact cleared_literal name
  · rw [hkey, hname]
    have hplain : word.all isPlain = true := List.all_eq_true.mpr fun c hc =>
      isPlain_of_class (Text.forall_mem_of_all (by decide)) (isIdentifier_all hword c hc)
    refine (cleared_plain ?_).plain_append hplain
    rcases htail with rfl | rfl <;> decide

/-- Whether an array stands in parentheses depends on the text of its elements. -/
theorem cleared_arrayText {t u : List Char} {comments : List String} (h : Cleared t u comments)
    (hsame : (occursIn " | ".toList t && t.head? != some '\x7b') =
      (occursIn " | ".toList u && u.head? != some '\x7b')) :
    Cleared (arrayText t) (arrayText u) comments := by
  unfold arrayText
  rw [hsame, ← List.append_nil comments]
  split
  · exact (h.append (cleared_plain (t := [')', '[', ']']) (by decide)) (by decide)).plain_append
      (r := ['(']) (by decide)
  · exact h.append (cleared_plain (by decide)) (by decide)

/-! ## Lines -/

theorem mem_indent {depth : Nat} {c : Char} (h : c ∈ (indent depth).toList) : c = ' ' := by
  rw [indent, String.toList_ofList] at h
  exact List.eq_of_mem_replicate h

theorem indent_plain (depth : Nat) : (indent depth).toList.all isPlain = true :=
  List.all_eq_true.mpr fun _ hc => mem_indent hc ▸ by decide

theorem cleared_closingText (depth : Nat) : Cleared (closingText depth) (closingText depth) [] := by
  refine cleared_plain ?_
  rw [closingText, List.all_append, List.all_cons, indent_plain]
  decide

/-- A property in front of other lines. -/
theorem cleared_property (style : Style) (depth : Nat) (name : String) (required : Bool)
    {type type' rest rest' : List Char} {comments more : List String} (htype : Cleared type type' comments)
    (hrest : Cleared rest rest' more) :
    Cleared ('\n' :: propertyText style.readonly depth name required type ++ rest)
      ('\n' :: propertyText style.readonly depth name required type' ++ rest') (comments ++ more) := by
  have hpad : ('\n' :: linePad style.readonly depth).all isPlain = true := by
    rw [List.all_cons, linePad, List.all_append, indent_plain]
    cases style.readonly <;> decide
  have hend : Cleared (clauseEnd required ++ rest) (clauseEnd required ++ rest') more :=
    hrest.plain_append (by cases required <;> decide)
  have hclause := (htype.append hend (by cases required <;> simp [clauseEnd])).plain_append
    (r := clauseStart required) (by cases required <;> decide)
  have hkey := (cleared_propertyKey name).append hclause (by cases required <;> simp [clauseStart])
  have hline := hkey.plain_append hpad
  rw [List.cons_append, List.cons_append, propertyText_append, propertyText_append]
  exact hline

/-- A description is a comment in a line of its own. -/
theorem cleared_description {style : Style} (hstyle : style.includeComments = true) (depth : Nat)
    {description : Option String} (h : ∀ comment ∈ descriptionComments description, endsInCode comment = true)
    {s v : List Char} {comments : List String} (hs : Cleared ('\n' :: s) ('\n' :: v) comments) :
    Cleared (feedLines (descriptionLines style depth description) ++ '\n' :: s) ('\n' :: v)
      (descriptionComments description ++ comments) := by
  cases description with
  | none => exact hs
  | some text =>
    by_cases hempty : text = ""
    · subst hempty
      simpa [descriptionLines, descriptionComments] using hs
    · have hends : endsInCode ("/** " ++ text ++ " */") = true := h _ (by simp [descriptionComments, hempty])
      have hpad : ∀ c ∈ (indent (depth + 1)).toList, c = ' ' := fun c hc => mem_indent hc
      have hline := hs.comment_append hpad hends
      simpa [descriptionLines, descriptionComments, hstyle, hempty, feedLines_cons] using hline

/-- The context with or without comments. -/
def Context.commented (ctx : Context) (includeComments : Bool) : Context :=
  { ctx with style := { ctx.style with includeComments } }

/-- An item has one type with and without comments, or it is an object. -/
theorem itemType_commented (ctx : Context) (depth : Nat) (item : ItemType) :
    itemType (ctx.commented true) depth item = itemType (ctx.commented false) depth item ∨
      ∀ includeComments,
        (itemType (ctx.commented includeComments) depth item).toList.head? = some '\x7b' := by
  cases item with
  | object fields =>
    refine Or.inr fun includeComments => ?_
    cases fields with
    | nil =>
      simp only [itemType, fieldLines, inlineObject_nil]
      rfl
    | cons f fields =>
      rw [toList_itemType_object]
      rfl
  | _ => exact Or.inl rfl

mutual

theorem cleared_itemType {ctx : Context} (hdate : isInert ctx.style.dateType = true) :
    ∀ (item : ItemType) (depth : Nat), itemNamesInert ctx item = true →
      (∀ comment ∈ itemComments item, endsInCode comment = true) →
      Cleared (itemType (ctx.commented true) depth item).toList
        (itemType (ctx.commented false) depth item).toList (itemComments item)
  | .scalar kind, depth, _, _ => by
    simp only [itemType, itemComments]
    exact cleared_spelling hdate kind
  | .enum name values, depth, h, _ => by
    simp only [itemType, itemComments]
    exact cleared_enumType ctx (by simpa only [itemNamesInert] using h) values
  | .reference target, depth, h, _ => by
    simp only [itemType, itemComments]
    exact cleared_of_isInert (by simpa only [itemNamesInert] using h)
  | .object [], depth, _, _ => by
    simp only [itemType, fieldLines, inlineObject_nil, itemComments, fieldsComments]
    exact cleared_plain (by decide)
  | .object (f :: fields), depth, h, hends => by
    have hfields := cleared_fieldLines hdate (f :: fields) depth (by simpa only [itemNamesInert] using h)
      (by simpa only [itemComments] using hends)
    rw [toList_itemType_object, toList_itemType_object, itemComments, ← List.append_nil (fieldsComments _)]
    have hbody := hfields.append (cleared_closingText depth) (by simp [closingText])
    exact hbody.plain_append (r := ['\x7b']) (by decide)

theorem cleared_shapeType {ctx : Context} (hdate : isInert ctx.style.dateType = true) :
    ∀ (shape : Shape) (depth : Nat), shapeNamesInert ctx shape = true →
      (∀ comment ∈ shapeComments shape, endsInCode comment = true) →
      Cleared (shapeType (ctx.commented true) depth shape).toList
        (shapeType (ctx.commented false) depth shape).toList (shapeComments shape)
  | .single (.reference target), depth, h, _ => by
    simp only [shapeType, shapeComments, itemComments]
    split
    · exact cleared_spelling hdate .unknown
    · exact cleared_of_isInert (by simpa only [shapeNamesInert, itemNamesInert] using h)
  | .single (.scalar kind), depth, h, hends => cleared_itemType hdate (.scalar kind) depth h hends
  | .single (.enum name values), depth, h, hends =>
    cleared_itemType hdate (.enum name values) depth h hends
  | .single (.object fields), depth, h, hends => cleared_itemType hdate (.object fields) depth h hends
  | .array item _, depth, h, hends => by
    rw [shapeType, shapeType, toList_arrayType, toList_arrayType]
    -- Comments could only bring in a bar inside of an object, and objects never stand in parentheses.
    refine cleared_arrayText (cleared_itemType hdate item depth h hends) ?_
    rcases itemType_commented ctx depth item with hsame | hobject
    · rw [hsame]
    · simp [hobject]

theorem cleared_fieldLines {ctx : Context} (hdate : isInert ctx.style.dateType = true) :
    ∀ (fields : List Field) (depth : Nat), fieldsNamesInert ctx fields = true →
      (∀ comment ∈ fieldsComments fields, endsInCode comment = true) →
      Cleared (feedLines (fieldLines (ctx.commented true) depth fields))
        (feedLines (fieldLines (ctx.commented false) depth fields)) (fieldsComments fields)
  | [], depth, _, _ => cleared_plain (by simp [fieldLines])
  | ⟨name, required, shape, _, _, _, _, description⟩ :: fields, depth, h, hends => by
    simp only [fieldsNamesInert, Bool.and_eq_true] at h
    simp only [fieldsComments, List.forall_mem_append] at hends
    have hline := cleared_property ctx.style depth name required
      (cleared_shapeType hdate shape (depth + 1) h.1 hends.2.1)
      (cleared_fieldLines hdate fields depth h.2 hends.2.2)
    have hnone : descriptionLines (ctx.commented false).style depth description = [] :=
      descriptionLines_eq_nil rfl depth description
    rw [feedLines_fieldLines_cons, feedLines_fieldLines_cons, hnone, fieldsComments]
    exact cleared_description rfl depth hends.1 hline

end

/-! ## Declarations -/

/-- The source of a model is named in a comment. -/
theorem sourceComment_isComment (m : Model) : IsComment (sourceComment m).toList := by
  unfold sourceComment
  cases m.sourceKind with
  | prisma => exact isComment_line "Auto-generated from prisma schema" (by decide)
  | mongoose => exact isComment_line "Auto-generated from mongoose schema" (by decide)

/-- The lines of the description of a model. -/
def modelDescriptionLines : Option String → List String
  | none => []
  | some text => if text == "" then [] else docComment text

theorem interfaceComments_eq (m : Model) :
    interfaceComments m = modelDescriptionLines m.description ++ [sourceComment m] := by
  unfold interfaceComments
  cases m.description <;> rfl

/-- The comments above a declaration stand in lines of their own. -/
theorem cleared_interfaceComments {m : Model}
    (h : ∀ comment ∈ modelDescriptionComments m.description, endsInCode comment = true) {s v : List Char}
    {comments : List String} (hs : Cleared ('\n' :: s) ('\n' :: v) comments) :
    Cleared (feedLines (interfaceComments m) ++ '\n' :: s) ('\n' :: v)
      (modelDescriptionComments m.description ++ (sourceComment m :: comments)) := by
  have hnone : ∀ c ∈ ([] : List Char), c = ' ' := by simp
  have hline := hs.comment_append hnone (linesLeft_comment (sourceComment_isComment m)).1
  have hsource : feedLines (interfaceComments m) = feedLines (modelDescriptionLines m.description) ++
      '\n' :: (sourceComment m).toList := by
    rw [interfaceComments_eq, feedLines_append, feedLines_cons, feedLines_nil, List.append_nil]
  rw [hsource, List.append_assoc, List.cons_append]
  cases hdescription : m.description with
  | none => exact hline
  | some text =>
    simp only [modelDescriptionLines, modelDescriptionComments, hdescription] at h ⊢
    by_cases hempty : (text == "") = true
    · rw [if_pos hempty, if_pos hempty]
      exact hline
    · rw [if_neg hempty] at h
      rw [if_neg hempty, if_neg hempty, ← feed_joinLines _ (docComment_ne_nil text)]
      exact hline.comment_append hnone (h _ List.mem_cons_self)

/-- Which comments are inert. If each comment of a declaration ends in code, then deleting them outside of its
literals, with the lines that they leave blank, yields the declaration without comments exactly if no line
of a comment is left. -/
theorem withoutComments_interface_iff {ctx : Context} (hdate : isInert ctx.style.dateType = true)
    {m : Model} (hnames : modelNamesInert ctx m = true)
    (hends : ∀ comment ∈ modelComments m, endsInCode comment = true) :
    withoutComments (interface (ctx.commented true) m) = interface (ctx.commented false) m ↔
      ∀ comment ∈ modelComments m, linesLeft comment = [] := by
  rw [modelNamesInert, Bool.and_eq_true] at hnames
  rw [modelComments, List.forall_mem_append, List.forall_mem_cons] at hends
  have hfields := (cleared_fieldLines hdate m.fields 0 hnames.2 hends.2.2).append (cleared_closingText 0)
    (by simp [closingText])
  have hopen := hfields.plain_append (r := " \x7b".toList) (by decide)
  have hname := (cleared_of_isInert hnames.1).append hopen (by simp)
  have hheader := hname.plain_append (r := '\n' :: "export interface ".toList) (by decide)
  have hall := cleared_interfaceComments hends.1 hheader
  refine withoutComments_eq_iff ?_
  rw [feed_interface, feed_interface]
  simpa [Context.commented, modelComments] using hall

/-- A model whose description closes its comment and opens another one at once. -/
def pauser : Model :=
  ⟨"Pauser", [⟨"name", true, .single (.scalar .string), false, none, false, false, some "Ends */ /* here"⟩],
    .prisma, none, none⟩

example : modelInert ⟨[], [], {}⟩ pauser = false ∧
    withoutComments (interface (Context.commented ⟨[], [], {}⟩ true) pauser) =
      interface (Context.commented ⟨[], [], {}⟩ false) pauser :=
  ⟨by decide, (withoutComments_interface_iff (by decide) (by decide) (by decide +kernel)).mpr (by decide +kernel)⟩

/-- If a model is inert, its names are, and its comments are closed at their ends. -/
theorem inert_model {ctx : Context} {m : Model} (h : modelInert ctx m = true) :
    modelNamesInert ctx m = true ∧ ∀ comment ∈ modelComments m, IsComment comment.toList := by
  simp only [modelInert, Bool.and_eq_true] at h
  obtain ⟨hnames, hfields⟩ := inert_fields m.fields h.2
  refine ⟨by simp [modelNamesInert, h.1.1, hnames], ?_⟩
  rw [modelComments, List.forall_mem_append, List.forall_mem_cons]
  refine ⟨?_, sourceComment_isComment m, hfields⟩
  cases hdescription : m.description with
  | none => simp [modelDescriptionComments]
  | some text =>
    have hcomment := docComment_isComment text (by simpa [hdescription] using h.1.2)
    unfold modelDescriptionComments
    split <;> simp_all

/-- Comments are inert. Deleting the comments of a declaration outside of its literals, with the lines
that they leave blank, yields the declaration without comments. -/
theorem withoutComments_interface {ctx : Context} (hdate : isInert ctx.style.dateType = true)
    {m : Model} (hm : modelInert ctx m = true) :
    withoutComments (interface (ctx.commented true) m) = interface (ctx.commented false) m := by
  obtain ⟨hnames, hcomments⟩ := inert_model hm
  rw [withoutComments_interface_iff hdate hnames fun comment h => (linesLeft_comment (hcomments comment h)).1]
  exact fun comment h => (linesLeft_comment (hcomments comment h)).2

/-- A context with one enum. -/
def levelContext : Context :=
  ⟨["Reader"], ["Level"], { readonly := true, dateType := "Date" }⟩

/-- A model with descriptions on one line and on several, at its own level and below. -/
def reader : Model :=
  ⟨"Reader", [⟨"it's", false, .single (.enum none ["/* a", "b */"]), false, none, false, false,
      some "Not 'open /* yet"⟩,
    ⟨"levels", true, .array (.object [⟨"level", true, .single (.enum (some "Level") ["low"]), false,
      none, false, false, some "First\nsecond"⟩]) false, false, none, false, false, some ""⟩],
    .prisma, none, some "Reads /** texts\n\nof * / others"⟩

/-- Descriptions may hold quotes and what opens a comment, and values may hold everything. -/
theorem withoutComments_interface_reader :
    isInert levelContext.style.dateType = true ∧ modelInert levelContext reader = true ∧
      interface (levelContext.commented true) reader ≠
        interface (levelContext.commented false) reader ∧
      withoutComments (interface (levelContext.commented true) reader) =
        interface (levelContext.commented false) reader :=
  ⟨by decide, by decide, by decide +kernel, withoutComments_interface (by decide) (by decide)⟩

/-- A model whose description closes its comment, declares a property and opens another comment. -/
def talker : Model :=
  ⟨"Talker", [⟨"name", true, .single (.scalar .string), false, none, false, false,
    some "Ends */ here: string; /* now"⟩], .prisma, none, none⟩

/-- A description may declare a property. -/
theorem withoutComments_interface_talker :
    withoutComments (interface (levelContext.commented true) talker) =
        "export interface Talker \x7b\n   here: string; \n  readonly name: string;\n\x7d" ∧
      interface (levelContext.commented false) talker =
        "export interface Talker \x7b\n  readonly name: string;\n\x7d" ∧
      withoutComments (interface (levelContext.commented true) talker) ≠
        interface (levelContext.commented false) talker := by
  have hcleared : withoutComments (interface (levelContext.commented true) talker) =
      "export interface Talker \x7b\n   here: string; \n  readonly name: string;\n\x7d" := by
    decide +kernel
  have hplain : interface (levelContext.commented false) talker =
      "export interface Talker \x7b\n  readonly name: string;\n\x7d" := by decide +kernel
  exact ⟨hcleared, hplain, by rw [hcleared, hplain]; decide⟩

end SchemaTypes.Declaration
