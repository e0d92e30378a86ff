import Mathlib.Data.List.Basic
import SchemaTypes.Proofs.Prisma.Nesting

/-!
# Reading canonical lines

The line of a declared field is read piece by piece: its name and type are words, the marks for lists and
optional values stand directly behind them, and the attributes follow. No attribute is mistaken for another
one, since an at sign stands nowhere else. The lines of a block are then read one after the other, with
the documentation that has gathered above each field.

Results:
* `ofContent_content`: the line of a field is read as it was declared.
* `resolve_line`: its type is resolved as the enums of the schema say.
* `fieldsOfLines_fields`, `enumValues_values`: the lines of a model and of an enum.
-/

namespace SchemaTypes.Prisma

/-! ## Words and blanks -/

theorem isBlank_of_isWord {c : Char} (h : Text.isWord c = true) : Text.isBlank c = false := by
  have hblanks : ∀ n ∈ Text.blanks, Text.isWord (Char.ofNat n) = false := by decide +kernel
  rw [Bool.eq_false_iff]
  intro hblank
  have hno := hblanks c.toNat (by simpa [Text.isBlank] using hblank)
  rw [Char.ofNat_toNat] at hno
  simp [h] at hno

theorem isBlank_of_isLineEnd {c : Char} (h : Text.isLineEnd c = true) : Text.isBlank c = true := by
  have hends : ∀ n ∈ [0x0A, 0x0B, 0x0C, 0x0D, 0x1C, 0x1D, 0x1E, 0x85, 0x2028, 0x2029],
      Text.isBlank (Char.ofNat n) = true := by decide
  have hblank := hends c.toNat (by simpa [Text.isLineEnd] using h)
  rwa [Char.ofNat_toNat] at hblank

theorem isLineEnd_of_isWord {c : Char} (h : Text.isWord c = true) : Text.isLineEnd c = false := by
  rw [Bool.eq_false_iff]
  intro hend
  simpa [isBlank_of_isWord h] using isBlank_of_isLineEnd hend

section Name

variable {name : String} {rest : List Char}

theorem takeWhile_name (h : Text.isName name = true) (hrest : ∀ c ∈ rest.head?, Text.isWord c = false) :
    (name.toList ++ rest).takeWhile Text.isWord = name.toList := by
  rw [List.takeWhile_append_of_pos (Text.isName_iff.mp h).2]
  cases rest with
  | nil => simp
  | cons c rest => simp [hrest c rfl]

theorem dropWhile_name (h : Text.isName name = true) (hrest : ∀ c ∈ rest.head?, Text.isWord c = false) :
    (name.toList ++ rest).dropWhile Text.isWord = rest := by
  rw [List.dropWhile_append_of_pos (Text.isName_iff.mp h).2]
  cases rest with
  | nil => rfl
  | cons c rest => simp [hrest c rfl]

/-- A name at the front of a text, behind which no word character stands. -/
theorem word?_name (h : Text.isName name = true) (hrest : ∀ c ∈ rest.head?, Text.isWord c = false) :
    word? (name.toList ++ rest) = some (name.toList, rest) := by
  obtain ⟨hne, -⟩ := Text.isName_iff.mp h
  unfold word?
  rw [takeWhile_name h hrest, dropWhile_name h hrest]
  split
  · contradiction
  · rfl

end Name

/-- The first character of a name. -/
theorem exists_cons_of_isName {name : String} (h : Text.isName name = true) :
    ∃ c cs, name.toList = c :: cs ∧ Text.isWord c = true := by
  obtain ⟨hne, hall⟩ := Text.isName_iff.mp h
  obtain ⟨c, cs, hcs⟩ := List.exists_cons_of_ne_nil hne
  exact ⟨c, cs, hcs, hall c (by simp [hcs])⟩

/-! ## Lines without blanks at their ends -/

/-- Whether no blank ends the text. -/
def EndsSolid (cs : List Char) : Prop :=
  ∀ c ∈ cs.getLast?, Text.isBlank c = false

theorem endsSolid_of_getLast? {cs : List Char} {c : Char} (h : cs.getLast? = some c)
    (hc : Text.isBlank c = false) : EndsSolid cs := by
  intro d hd
  obtain rfl : c = d := by simpa [h] using hd
  exact hc

theorem EndsSolid.append {cs ds : List Char} (hc : EndsSolid cs) (hd : EndsSolid ds) :
    EndsSolid (cs ++ ds) := by
  intro c hlast
  rw [List.getLast?_append] at hlast
  cases hds : ds.getLast? with
  | none => exact hc c (by simpa [hds] using hlast)
  | some d => exact hd c (by simpa [hds] using hlast)

theorem EndsSolid.append_left {ds : List Char} (hd : EndsSolid ds) (hne : ds ≠ [])
    (cs : List Char) : EndsSolid (cs ++ ds) := by
  intro c hlast
  rw [List.getLast?_append, List.getLast?_eq_some_getLast hne] at hlast
  exact hd c (by rw [List.getLast?_eq_some_getLast hne]; simpa using hlast)

theorem endsSolid_name {name : String} (h : Text.isName name = true) : EndsSolid name.toList :=
  fun c hlast => isBlank_of_isWord ((Text.isName_iff.mp h).2 c (List.mem_of_getLast? hlast))

theorem endsSolid_trim (cs : List Char) : EndsSolid (Text.trim cs) := by
  intro c hc
  have hhead := List.head?_dropWhile_not Text.isBlank (cs.dropWhile Text.isBlank).reverse
  rw [Text.trim, Text.trimEnd, List.getLast?_reverse] at hc
  rw [hc] at hhead
  simpa using hhead

/-- A line that starts with a word and has no comment is its own content. -/
theorem content?_eq_some {c : Char} {cs : List Char} (hword : Text.isWord c = true)
    (hend : EndsSolid (c :: cs)) (hcomment : stripComment (c :: cs) = c :: cs) :
    content? (c :: cs) = some (c :: cs) := by
  have htrim : Text.trim (c :: cs) = c :: cs :=
    Text.trim_eq_self (by simp [isBlank_of_isWord hword]) hend
  have hat : c ≠ '@' := ne_of_isWord hword (by decide)
  rw [content?, hcomment, htrim]
  split
  · simp_all
  · simp_all
  · rfl

/-! ## Marks -/

theorem mark_self (m cs : List Char) : mark m (m ++ cs) = (true, cs) := by
  have hprefix : m.isPrefixOf? (m ++ cs) = some cs :=
    List.isPrefixOf?_eq_some_iff_append_eq.mpr rfl
  simp [mark, hprefix]

theorem mark_of_head_ne {c : Char} {cs : List Char} (h : c ∉ cs.head?) (m : List Char) :
    mark (c :: m) cs = (false, cs) := by
  cases cs with
  | nil => rfl
  | cons d cs =>
    have hne : (c == d) = false := beq_eq_false_iff_ne.mpr fun heq => h (by simp [heq])
    simp [mark, List.isPrefixOf?, hne]

/-- A mark that is written where its flag is set. -/
theorem mark_flagText {c : Char} {cs : List Char} (h : c ∉ cs.head?) (m : List Char) (flag : Bool) :
    mark (c :: m) (flagText flag (c :: m) ++ cs) = (flag, cs) := by
  cases flag
  · exact mark_of_head_ne h m
  · exact mark_self (c :: m) cs

/-! ## Attributes -/

theorem hasAttribute_of_no_mark {cs : List Char} (h : '@' ∉ cs) (key : List Char)
    (before : Option Char) : hasAttribute key before cs = false := by
  induction cs generalizing before with
  | nil => rfl
  | cons c cs ih =>
    simp only [List.mem_cons, not_or] at h
    simp [hasAttribute, startsMark, Ne.symm h.1, ih h.2]

section Expression

variable {text : String}

theorem no_mark_of_isExpression (h : isExpression text = true) : '@' ∉ text.toList := by
  simp only [isExpression, Bool.and_eq_true, List.all_eq_true] at h
  intro hmark
  simpa using h.1.2 '@' hmark

theorem no_feed_of_isExpression (h : isExpression text = true) : '\n' ∉ text.toList := by
  simp only [isExpression, Bool.and_eq_true, List.all_eq_true] at h
  intro hfeed
  simpa [isLineEnd_feed] using h.1.2 '\n' hfeed

/-- The arguments of an attribute are the expression between its parentheses. -/
theorem arguments?_expression (h : isExpression text = true) :
    arguments? ('(' :: (text.toList ++ [')'])) = some text.toList := by
  simp only [isExpression, isTrimmed, Bool.and_eq_true, beq_iff_eq] at h
  have hclosing := closing?_parentheses_expression h.2 []
  have hblank : ('(' :: (text.toList ++ [')'])).dropWhile Text.isBlank =
      '(' :: (text.toList ++ [')']) := rfl
  simp [arguments?, hblank, hclosing, h.1.1]

end Expression

namespace FieldDecl

variable {f : FieldDecl}

/-- The attributes of a field, without the blank before them. -/
def attributes (f : FieldDecl) : List Char :=
  f.attributeText.drop 1

/-- Each attribute is found exactly where it was declared. -/
theorem attributes_read (h : f.defaultText.all isExpression = true) :
    hasAttribute idKey none f.attributes = f.isId ∧
      hasAttribute uniqueKey none f.attributes = f.isUnique ∧
      attributeArguments? defaultKey none f.attributes = f.defaultText.map String.toList := by
  obtain ⟨_, _, _, _, _, isId, isUnique, defaultText⟩ := f
  cases defaultText with
  | none => cases isId <;> cases isUnique <;> exact ⟨rfl, rfl, rfl⟩
  | some text =>
    rw [Option.all_some] at h
    have hno : '@' ∉ text.toList ++ [')'] := by simpa using no_mark_of_isExpression h
    have hskip := hasAttribute_of_no_mark hno
    have hread := arguments?_expression h
    have hblank : Text.isWord ' ' = false := by decide
    cases isId <;> cases isUnique <;>
      simp [attributes, attributeText, flagText, defaultAttribute, attributeMark, idKey, uniqueKey,
        defaultKey, hasAttribute, attributeArguments?, startsMark, List.isPrefixOf?, hblank, hskip, hread]

theorem head_attributeText (f : FieldDecl) : ∀ c ∈ f.attributeText.head?, c = ' ' := by
  obtain ⟨_, _, _, _, _, isId, isUnique, defaultText⟩ := f
  cases isId <;> cases isUnique <;> cases defaultText <;>
    simp [attributeText, flagText, attributeMark, defaultAttribute]

theorem attributes?_attributeText (h : f.defaultText.all isExpression = true) :
    attributes? f.attributeText = some f.attributes := by
  have hspace : Text.isBlank ' ' = true := by decide
  have hmark : Text.isBlank '@' = false := by decide
  obtain ⟨_, _, _, _, _, isId, isUnique, defaultText⟩ := f
  cases defaultText with
  | none => cases isId <;> cases isUnique <;> rfl
  | some text =>
    rw [Option.all_some] at h
    have hfeed := no_feed_of_isExpression h
    cases isId <;> cases isUnique <;>
      simp [attributes, attributeText, flagText, defaultAttribute, attributeMark, idKey, uniqueKey,
        defaultKey, attributes?, hspace, hmark, hfeed]

/-! ## Fields -/

/-- The line of a field as it is read. -/
def line (f : FieldDecl) (description : Option String) : FieldLine :=
  { name := f.name, typeName := f.typeName, isArray := f.isArray, isOptional := f.isOptional
    attributes := String.ofList f.attributes, isPrimary := f.isId, isUnique := f.isUnique
    defaultValue := f.defaultText, description }

theorem head_optionalText (f : FieldDecl) :
    ∀ c ∈ (flagText f.isOptional ['?'] ++ f.attributeText).head?, c ∈ ['?', ' '] := by
  intro c hc
  have hattributes := head_attributeText f c
  cases hoptional : f.isOptional <;> simp [flagText, hoptional] at hc <;> grind

theorem head_suffix (f : FieldDecl) : ∀ c ∈ f.suffix.head?, c ∈ ['[', '?', ' '] := by
  intro c hc
  have hoptional := head_optionalText f c
  rw [suffix, List.append_assoc] at hc
  cases harray : f.isArray
  · rw [harray] at hc
    exact List.mem_cons_of_mem _ (hoptional hc)
  · rw [harray] at hc
    simp only [flagText, if_true, List.cons_append, List.head?_cons, Option.mem_def,
      Option.some.injEq] at hc
    simp [← hc]

theorem nameAndType?_content (h : f.isCanonical = true) :
    nameAndType? f.content = some (f.name.toList, f.typeName.toList, f.suffix) := by
  simp only [isCanonical, Bool.and_eq_true] at h
  obtain ⟨⟨⟨-, hname⟩, htype⟩, -⟩ := h
  have hsuffix : ∀ c ∈ f.suffix.head?, Text.isWord c = false := by
    have hall : ∀ c ∈ ['[', '?', ' '], Text.isWord c = false :=
      Text.forall_mem_of_all (by decide)
    exact fun c hc => hall c (head_suffix f c hc)
  have hfirst : word? f.content = some (f.name.toList, ' ' :: (f.typeName.toList ++ f.suffix)) := by
    rw [content, List.append_assoc]
    exact word?_name hname (by simp; decide)
  have hspace : Text.isBlank ' ' = true := by decide
  have hsecond : (f.typeName.toList ++ f.suffix).dropWhile Text.isBlank =
      f.typeName.toList ++ f.suffix := by
    obtain ⟨c, cs, hcs, hword⟩ := exists_cons_of_isName htype
    simp [hcs, isBlank_of_isWord hword]
  simp [nameAndType?, hfirst, hspace, hsecond, word?_name htype hsuffix]

theorem ofContent_content (h : f.isCanonical = true) (description : Option String) :
    FieldLine.ofContent f.content description = .ok (f.line description) := by
  have hdefault := h
  simp only [isCanonical, Bool.and_eq_true] at hdefault
  obtain ⟨hid, hunique, harguments⟩ := attributes_read hdefault.2
  have hnoarguments : withArguments? f.typeName.toList f.suffix =
      some (f.typeName.toList, f.suffix) := by
    have hparenthesis : '(' ∉ f.suffix.head? := fun hc => by
      simpa using head_suffix f '(' hc
    unfold withArguments?
    split
    · rename_i hsuffix
      exact absurd (by simp [hsuffix]) hparenthesis
    · rfl
  have harray : mark ['[', ']'] f.suffix =
      (f.isArray, flagText f.isOptional ['?'] ++ f.attributeText) := by
    rw [suffix, List.append_assoc]
    exact mark_flagText (fun hc => by simpa using head_optionalText f '[' hc) [']'] f.isArray
  have hoptional : mark ['?'] (flagText f.isOptional ['?'] ++ f.attributeText) =
      (f.isOptional, f.attributeText) :=
    mark_flagText (fun hc => by simpa using head_attributeText f '?' hc) [] f.isOptional
  have hunique' : "unique".toList = uniqueKey := by decide
  have hdefault' : "default".toList = defaultKey := by decide
  have hid' : ['i', 'd'] = idKey := rfl
  simp only [FieldLine.ofContent, nameAndType?_content h, hnoarguments, harray, hoptional,
    attributes?_attributeText hdefault.2, hunique', hdefault', hid', hid, hunique, harguments]
  simp [line, Function.comp_def]

theorem content_eq_cons (h : f.isCanonical = true) :
    ∃ c cs, f.content = c :: cs ∧ Text.isWord c = true := by
  simp only [isCanonical, Bool.and_eq_true] at h
  obtain ⟨c, cs, hcs, hword⟩ := exists_cons_of_isName h.1.1.2
  exact ⟨c, cs ++ ' ' :: f.typeName.toList ++ f.suffix, by simp [content, hcs], hword⟩

theorem endsSolid_flagText {text : List Char} (h : EndsSolid text) (flag : Bool) :
    EndsSolid (flagText flag text) := by
  cases flag
  · simp [flagText, EndsSolid]
  · exact h

theorem endsSolid_defaultAttribute (text : Option String) : EndsSolid (defaultAttribute text) := by
  cases text with
  | none => simp [defaultAttribute, EndsSolid]
  | some text =>
    rw [defaultAttribute]
    exact endsSolid_of_getLast? List.getLast?_concat (by decide)

theorem defaultAttribute_no_end {text : Option String} (h : text.all isExpression = true) :
    ∀ c ∈ defaultAttribute text, Text.isLineEnd c = false := by
  cases text with
  | none => exact List.forall_mem_nil _
  | some text =>
    simp only [Option.all_some, isExpression, Bool.and_eq_true, List.all_eq_true,
      Bool.not_eq_true'] at h
    have hkey : ∀ c ∈ attributeMark defaultKey, Text.isLineEnd c = false :=
      Text.forall_mem_of_all (by decide)
    intro c hc
    simp only [defaultAttribute, List.mem_append, List.mem_cons, List.not_mem_nil, or_false] at hc
    rcases hc with (hc | rfl | hc) | rfl
    · exact hkey c hc
    · decide
    · exact (h.1.2 c hc).2
    · decide

theorem content_endsSolid (h : f.isCanonical = true) : EndsSolid f.content := by
  simp only [isCanonical, Bool.and_eq_true] at h
  have htype := (endsSolid_name h.1.2).append_left (Text.isName_iff.mp h.1.2).1
    (f.name.toList ++ [' '])
  have harray : EndsSolid ['[', ']'] := endsSolid_of_getLast? rfl (by decide)
  have hoptional : EndsSolid ['?'] := endsSolid_of_getLast? rfl (by decide)
  have hid : EndsSolid (attributeMark idKey) := endsSolid_of_getLast? rfl (by decide)
  have hunique : EndsSolid (attributeMark uniqueKey) := endsSolid_of_getLast? rfl (by decide)
  have hsuffix : EndsSolid f.suffix :=
    ((endsSolid_flagText harray _).append (endsSolid_flagText hoptional _)).append
      (((endsSolid_flagText hid _).append (endsSolid_flagText hunique _)).append
        (endsSolid_defaultAttribute _))
  simpa [content] using htype.append hsuffix

theorem content?_content (h : f.isCanonical = true) : content? f.content = some f.content := by
  have hend := content_endsSolid h
  have hcomment := stripComment_content h
  obtain ⟨c, cs, hcs, hword⟩ := content_eq_cons h
  rw [hcs] at hend hcomment ⊢
  exact content?_eq_some hword hend hcomment

/-- The line of a field is read as it was declared. -/
theorem ofLine_content (h : f.isCanonical = true) (description : Option String) :
    FieldLine.ofLine f.content description = .ok (some (f.line description)) := by
  simp [FieldLine.ofLine, content?_content h, ofContent_content h, Except.map]

theorem content_no_end (h : f.isCanonical = true) : ∀ c ∈ f.content, Text.isLineEnd c = false := by
  have hfront := front_all h (fun _ => isLineEnd_of_isWord)
    (Text.forall_mem_of_all (by decide))
  simp only [isCanonical, Bool.and_eq_true] at h
  intro c hc
  rw [content_eq, List.mem_append] at hc
  rcases hc with hc | hc
  · exact hfront c hc
  · exact defaultAttribute_no_end h.2 c hc

end FieldDecl

/-! ## Types -/

/-- The raw enums of pairs of a name and values. -/
def rawEnumsOf (path : Option String) (enums : List (String × List String)) : List RawEnum :=
  enums.map fun e => { name := e.1, values := e.2, sourcePath := path }

theorem find?_rawEnumsOf (path : Option String) (enums : List (String × List String))
    (name : String) : ((rawEnumsOf path enums).find? fun e => e.name == name).map (·.values) =
      enums.lookup name := by
  induction enums with
  | nil => rfl
  | cons e enums ih =>
    obtain ⟨other, values⟩ := e
    by_cases h : other = name
    · simp [rawEnumsOf, h]
    · have hne : (name == other) = false := beq_eq_false_iff_ne.mpr (Ne.symm h)
      simpa [rawEnumsOf, List.lookup_cons, h, hne] using ih

/-- The type of a field is resolved as the enums of the schema say. -/
theorem resolve_line (path : Option String) (enums : List (String × List String)) (f : FieldDecl) :
    resolve (rawEnumsOf path enums) (f.line (description f.docs)) = f.raw enums := by
  have hfind := find?_rawEnumsOf path enums f.typeName
  unfold resolve FieldDecl.raw shapeOf
  simp only [FieldDecl.line]
  cases hkind : ScalarKind.ofPrisma? f.typeName with
  | some kind => rfl
  | none =>
    cases hfound : (rawEnumsOf path enums).find? fun e => e.name == f.typeName with
    | some e =>
      rw [hfound, Option.map_some] at hfind
      simp only [← hfind]
    | none =>
      rw [hfound, Option.map_none] at hfind
      simp only [← hfind]
      by_cases hcapital : f.typeName.toList.head?.any Text.isCapital = true
      · simp only [if_pos hcapital]
        exact if_pos hcapital
      · simp only [if_neg hcapital]
        exact if_neg hcapital

/-! ## Documentation -/

/-- A line of documentation. -/
def docLine (doc : String) : List Char :=
  '/' :: '/' :: '/' :: ' ' :: doc.toList

theorem docLine?_docLine {doc : String} (h : isDoc doc = true) : docLine? (docLine doc) = some doc := by
  simp only [isDoc, isTrimmed, Bool.and_eq_true, bne_iff_ne, beq_iff_eq] at h
  obtain ⟨⟨hne, htrim⟩, -⟩ := h
  have hsolid : EndsSolid doc.toList := htrim ▸ endsSolid_trim doc.toList
  have hline : Text.trim (docLine doc) = docLine doc :=
    Text.trim_eq_self (by simp [docLine]; decide)
      (hsolid.append_left (by simpa using hne) ['/', '/', '/', ' '])
  have hspace : Text.isBlank ' ' = true := by decide
  have hrest : Text.trim (' ' :: doc.toList) = doc.toList := by
    rw [Text.trim, List.dropWhile_cons_of_pos hspace]
    exact htrim
  rw [docLine?, hline]
  simp [docLine, hrest]

theorem docText_eq (docs : List String) :
    docText docs = docs.flatMap fun doc => docLine doc ++ ['\n'] := rfl

theorem docLine_no_end {doc : String} (h : isDoc doc = true) :
    ∀ c ∈ docLine doc, Text.isLineEnd c = false := by
  simp only [isDoc, Bool.and_eq_true, List.all_eq_true, Bool.not_eq_true'] at h
  intro c hc
  simp only [docLine, List.mem_cons] at hc
  rcases hc with rfl | rfl | rfl | rfl | hc
  · decide
  · decide
  · decide
  · decide
  · exact h.2 c hc

theorem descriptionOf_docs {docs : List String} (h : docs.all isDoc = true) :
    descriptionOf docs = description docs := by
  cases docs with
  | nil => rfl
  | cons doc docs =>
    simp only [List.all_cons, Bool.and_eq_true, isDoc, bne_iff_ne] at h
    have hne : Text.joinLines (doc :: docs) ≠ "" := by
      intro hempty
      have hlist := congrArg String.toList hempty
      rw [Text.toList_joinLines_cons] at hlist
      have hfirst : doc = "" ∧ ∀ more, more ∉ docs := by simpa using hlist
      exact h.1.1.1 hfirst.1
    simp [descriptionOf, description, hne]

/-! ## The lines of a block -/

/-- The lines of a field with its documentation. -/
def FieldDecl.lines (f : FieldDecl) : List (List Char) :=
  f.docs.map docLine ++ [f.content]

/-- The lines between the braces of a block. -/
def Body.lines : Body → List (List Char)
  | .values vs => vs.map String.toList
  | .fields _ fs => fs.flatMap FieldDecl.lines

/-- Text that is made of lines falls into these lines. -/
theorem splitLines_flatMap {lines : List (List Char)}
    (h : ∀ line ∈ lines, ∀ c ∈ line, Text.isLineEnd c = false) (rest : List Char) :
    Text.splitLines (lines.flatMap (· ++ ['\n']) ++ rest) = lines ++ Text.splitLines rest := by
  induction lines with
  | nil => rfl
  | cons line lines ih =>
    have hline := Text.splitLines_line (h line List.mem_cons_self)
      (lines.flatMap (· ++ ['\n']) ++ rest)
    rw [ih fun other hother => h other (List.mem_cons_of_mem _ hother)] at hline
    simpa using hline

theorem FieldDecl.text_eq (f : FieldDecl) : f.text = f.lines.flatMap (· ++ ['\n']) := by
  simp [FieldDecl.text, FieldDecl.lines, docText_eq, List.flatMap_map]

theorem Body.text_eq (body : Body) : body.text = body.lines.flatMap (· ++ ['\n']) := by
  cases body with
  | values vs => simp [Body.text, Body.lines, List.flatMap_map]
  | fields keyword fs =>
    simp only [Body.text, Body.lines, List.flatMap_assoc, ← FieldDecl.text_eq]

theorem Body.lines_no_end {body : Body} (h : body.isCanonical = true) :
    ∀ line ∈ body.lines, ∀ c ∈ line, Text.isLineEnd c = false := by
  cases body with
  | values vs =>
    simp only [Body.isCanonical, Bool.and_eq_true, List.all_eq_true] at h
    intro line hline c hc
    obtain ⟨value, hvalue, rfl⟩ := List.mem_map.mp hline
    exact isLineEnd_of_isWord ((Text.isName_iff.mp (h.2 value hvalue)).2 c hc)
  | fields keyword fs =>
    simp only [Body.isCanonical, Bool.and_eq_true, List.all_eq_true] at h
    intro line hline
    obtain ⟨f, hf, hline⟩ := List.mem_flatMap.mp hline
    have hcanonical := h.2 f hf
    rcases List.mem_append.mp hline with hline | hline
    · obtain ⟨doc, hdoc, rfl⟩ := List.mem_map.mp hline
      simp only [FieldDecl.isCanonical, Bool.and_eq_true, List.all_eq_true] at hcanonical
      exact docLine_no_end (hcanonical.1.1.1 doc hdoc)
    · obtain rfl := List.mem_singleton.mp hline
      exact FieldDecl.content_no_end hcanonical

/-- The lines of the body of a block. The line feed behind the opening brace ends an empty line. -/
theorem splitLines_body {body : Body} (h : body.isCanonical = true) :
    Text.splitLines ('\n' :: body.text) = [] :: body.lines := by
  have hlines := splitLines_flatMap (Body.lines_no_end h) []
  rw [Text.splitLines_cons_feed, Body.text_eq]
  simpa using hlines

/-! ## Enums and models -/

theorem enumValues_values {values : List String} (h : values.all Text.isName = true) :
    enumValues (values.map String.toList) = .ok values := by
  induction values with
  | nil => rfl
  | cons value values ih =>
    simp only [List.all_cons, Bool.and_eq_true] at h
    have hcomment : stripComment value.toList = value.toList := by
      have hplain := stripFrom_plain (name_plain h.1) []
      simpa [stripComment, stripFrom] using hplain
    have hcontent : content? value.toList = some value.toList := by
      have hend := endsSolid_name h.1
      obtain ⟨c, cs, hcs, hword⟩ := exists_cons_of_isName h.1
      rw [hcs] at hcomment hend ⊢
      exact content?_eq_some hword hend hcomment
    have hword : word? value.toList = some (value.toList, []) := by
      simpa using word?_name h.1 (by simp : ∀ c ∈ ([] : List Char).head?, Text.isWord c = false)
    simp [enumValues, hcontent, hword, ih h.2, Except.map]

theorem fieldsOfLines_docs {docs : List String} (h : docs.all isDoc = true) (enums : List RawEnum)
    (number : Nat) (before : List String) (lines : List (List Char)) :
    fieldsOfLines enums number before (docs.map docLine ++ lines) =
      fieldsOfLines enums (number + docs.length) (before ++ docs) lines := by
  induction docs generalizing number before with
  | nil => simp
  | cons doc docs ih =>
    simp only [List.all_cons, Bool.and_eq_true] at h
    rw [List.map_cons, List.cons_append, fieldsOfLines, docLine?_docLine h.1]
    simp only [ih h.2, List.length_cons, List.append_assoc, List.singleton_append]
    rw [Nat.add_assoc, Nat.add_comm 1]

theorem docLine?_content {f : FieldDecl} (h : f.isCanonical = true) : docLine? f.content = none := by
  have hend := FieldDecl.content_endsSolid h
  obtain ⟨c, cs, hcs, hword⟩ := FieldDecl.content_eq_cons h
  rw [hcs] at hend ⊢
  have hslash : c ≠ '/' := ne_of_isWord hword (by decide)
  have htrim : Text.trim (c :: cs) = c :: cs :=
    Text.trim_eq_self (by simp [isBlank_of_isWord hword]) hend
  rw [docLine?, htrim]
  split
  · simp_all
  · rfl

theorem fieldsOfLines_fields {fields : List FieldDecl}
    (h : fields.all FieldDecl.isCanonical = true) (path : Option String)
    (enums : List (String × List String)) (number : Nat) :
    fieldsOfLines (rawEnumsOf path enums) number [] (fields.flatMap FieldDecl.lines) =
      .ok (fields.map (FieldDecl.raw enums)) := by
  induction fields generalizing number with
  | nil => rfl
  | cons f fields ih =>
    simp only [List.all_cons, Bool.and_eq_true] at h
    have hdocs : f.docs.all isDoc = true := by
      have hf := h.1
      simp only [FieldDecl.isCanonical, Bool.and_eq_true] at hf
      exact hf.1.1.1
    rw [List.flatMap_cons, FieldDecl.lines, List.append_assoc, fieldsOfLines_docs hdocs,
      List.nil_append, List.singleton_append, fieldsOfLines, docLine?_content h.1]
    simp only [descriptionOf_docs hdocs, FieldDecl.ofLine_content h.1, ih h.2, resolve_line]
    rfl

end SchemaTypes.Prisma
