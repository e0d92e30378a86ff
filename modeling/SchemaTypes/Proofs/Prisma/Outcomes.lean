import SchemaTypes.Proofs.Prisma.Groups
import SchemaTypes.Proofs.Prisma.Quotes
import SchemaTypes.Proofs.Source.Shapes

/-!
# What becomes of blocks

Nothing that a schema declares is lost. Each enum block becomes one raw enum or one issue, each block of
fields one raw model or one issue, and both carry the name of the block. The order of the blocks is kept among
the enums, among the models and among the issues of either. Other blocks yield nothing.

Which of the two it is depends on the texts of the body alone: what is left of its lines without comments and
outer blanks, but for empty lines and lines that belong to the block as a whole. A raw model comes out if each
of these texts declares a field, and then it has one field for each text, in order. What a field declaration
is, is said by a grammar that knows nothing of how a line is read.

Results:
* `ofContent_iff`: a text is read as a field exactly if the grammar says so.
* `DeclaresField.unique`: the grammar leaves no choice.
* `fieldsOfLines_ok`, `fieldsOfLines_error`: what becomes of the lines of a model.
* `enumOfBlock_outcome`, `modelOfBlock_outcome`: what becomes of one block.
* `blocks_accounted`: what becomes of the blocks of a schema.
-/

namespace SchemaTypes.Prisma

/-! ## Texts of a body -/

/-- What is left of the lines of a body: their texts without comments and outer blanks. Empty texts are left
out, and those that start with two marks. -/
def bodyTexts (body : List Char) : List (List Char) :=
  ((Text.splitLines body).map fun line => Text.trim (stripComment line)).filter fun text =>
    !text.isEmpty && (['@', '@'].isPrefixOf? text).isNone

theorem bodyTexts_eq (body : List Char) : bodyTexts body = (Text.splitLines body).filterMap content? := by
  unfold bodyTexts
  induction Text.splitLines body with
  | nil => rfl
  | cons line lines ih =>
    rw [List.map_cons, List.filter_cons]
    cases hcontent : content? line with
    | none =>
      rw [List.filterMap_cons_none hcontent, if_neg, ih]
      intro hkept
      rw [Bool.and_eq_true, Bool.not_eq_true', List.isEmpty_eq_false_iff, Option.isNone_iff_eq_none]
        at hkept
      have hsome := content?_eq_some_iff.mpr ⟨rfl, hkept⟩
      rw [hcontent] at hsome
      cases hsome
    | some text =>
      obtain ⟨rfl, hne, hmarks⟩ := content?_eq_some_iff.mp hcontent
      rw [List.filterMap_cons_some hcontent, if_pos (by simp [hne, hmarks]), ih]

/-- No line has the end of one in it. -/
theorem no_end_of_mem_splitLines (cs : List Char) :
    ∀ line ∈ Text.splitLines cs, ∀ c ∈ line, Text.isLineEnd c = false := by
  fun_induction Text.splitLines cs with
  | case1 => simp
  | case2 rest ih => exact List.forall_mem_cons.mpr ⟨by simp, ih⟩
  | case3 c rest _ _ ih => exact List.forall_mem_cons.mpr ⟨by simp, ih⟩
  | case4 c rest _ hc ih =>
    have hfirst : Text.isLineEnd c = false := by simpa using hc
    cases hlines : Text.splitLines rest with
    | nil => simpa [Text.consLine] using hfirst
    | cons line lines =>
      rw [hlines, List.forall_mem_cons] at ih
      rw [Text.consLine, List.forall_mem_cons]
      exact ⟨List.forall_mem_cons.mpr ⟨hfirst, ih.1⟩, ih.2⟩

theorem no_feed_of_mem_splitLines {cs line : List Char} (h : line ∈ Text.splitLines cs) : '\n' ∉ line := by
  intro hfeed
  have hend := no_end_of_mem_splitLines cs line h _ hfeed
  exact absurd hend (by decide)

theorem infix_of_content? {line text : List Char} (h : content? line = some text) : text <:+: line := by
  obtain ⟨rfl, -, -⟩ := content?_eq_some_iff.mp h
  have hfront := Text.trimEnd_prefix ((stripComment line).dropWhile Text.isBlank)
  have hback := (List.dropWhile_suffix (l := stripComment line) Text.isBlank).isInfix
  have hstrip := stripComment_prefix line
  exact hfront.isInfix.trans (hback.trans hstrip.isInfix)

theorem no_feed_of_content? {line text : List Char} (h : content? line = some text) (hline : '\n' ∉ line) :
    '\n' ∉ text :=
  fun hmem => hline ((infix_of_content? h).subset hmem)

/-- A line of documentation has no content. -/
theorem content?_of_docLine? {line : List Char} {doc : String} (h : docLine? line = some doc) :
    content? line = none := by
  obtain ⟨rest, hrest⟩ := slashes_of_docLine? h
  have hline : line = line.takeWhile Text.isBlank ++ '/' :: '/' :: '/' :: rest := by
    rw [← hrest, List.takeWhile_append_dropWhile]
  have hstrip : stripComment line = line.takeWhile Text.isBlank := by
    conv_lhs => rw [hline, stripComment, stripFrom_plain (blanks_plain line)]
    simp [stripFrom]
  have hblank : (line.takeWhile Text.isBlank).dropWhile Text.isBlank = [] :=
    List.dropWhile_eq_nil_iff.mpr (List.all_eq_true.mp List.all_takeWhile)
  rw [content?, hstrip, Text.trim, hblank]
  rfl

/-! ## Field declarations -/

/-- Whether the text starts with the word: a name, behind which no word character stands. -/
def StartsWith (text : List Char) (word : String) (rest : List Char) : Prop :=
  Text.isName word = true ∧ text = word.toList ++ rest ∧ ∀ c ∈ rest.head?, Text.isWord c = false

/-- What stands behind the type of a field: the marks of a list and of an optional value, where they are set,
and then the rest. -/
def behindType (isArray isOptional : Bool) (tail : List Char) : List Char :=
  flagText isArray ['[', ']'] ++ (flagText isOptional ['?'] ++ tail)

/-- Whether the text declares a field with the given name and type. First comes the name, and behind blanks
the type, a word with the group of its arguments if there is one. Then come the marks, and the rest is nothing
or starts with a blank. -/
def DeclaresField (text : List Char) (name typeName : String) : Prop :=
  ∃ (gap : List Char) (word : String) (arguments tail : List Char) (isArray isOptional : Bool),
    Text.isName name = true ∧ gap ≠ [] ∧ (∀ c ∈ gap, Text.isBlank c = true) ∧
    Text.isName word = true ∧ (arguments = [] ∨ IsGroup parentheses arguments) ∧
    typeName = word ++ String.ofList arguments ∧ (∀ c ∈ tail.head?, Text.isBlank c = true) ∧
    text = name.toList ++ (gap ++ (typeName.toList ++ behindType isArray isOptional tail))

theorem word?_iff {text word rest : List Char} :
    word? text = some (word, rest) ↔ ∃ name : String, name.toList = word ∧ StartsWith text name rest := by
  constructor
  · intro h
    obtain ⟨hne, rfl, rfl⟩ := word?_eq_some_iff.mp h
    refine ⟨String.ofList (text.takeWhile Text.isWord), String.toList_ofList, ?_, ?_, ?_⟩
    · rw [Text.isName_iff, String.toList_ofList]
      exact ⟨hne, List.all_eq_true.mp List.all_takeWhile⟩
    · rw [String.toList_ofList, List.takeWhile_append_dropWhile]
    · intro c hc
      have hhead := List.head?_dropWhile_not Text.isWord text
      rw [Option.mem_def.mp hc] at hhead
      simpa using hhead
  · rintro ⟨name, rfl, hname, rfl, hrest⟩
    exact word?_name hname hrest

section Pieces

variable {name : String} {rest behind : List Char}

theorem isWord_of_isBlank {c : Char} (h : Text.isBlank c = true) : Text.isWord c = false := by
  rw [Bool.eq_false_iff]
  intro hword
  rw [isBlank_of_isWord hword] at h
  cases h

/-- What is behind the name and the type of a field starts with no word character. -/
theorem nameAndType?_iff {text typeName : List Char} :
    nameAndType? text = some (name.toList, typeName, rest) ↔ ∃ gap word, Text.isName name = true ∧
      gap ≠ [] ∧ (∀ c ∈ gap, Text.isBlank c = true) ∧ word.toList = typeName ∧
      text = name.toList ++ (gap ++ (word.toList ++ rest)) ∧ Text.isName word = true ∧
      ∀ c ∈ rest.head?, Text.isWord c = false := by
  rw [nameAndType?_eq_some_iff]
  constructor
  · rintro ⟨middle, hname, hgap, htype⟩
    obtain ⟨found, hfound, hisName, rfl, -⟩ := word?_iff.mp hname
    obtain rfl := String.toList_inj.mp hfound
    obtain ⟨word, hword, hisWord, hmiddle, hrest⟩ := word?_iff.mp htype
    refine ⟨middle.takeWhile Text.isBlank, word, hisName, ?_,
      List.all_eq_true.mp List.all_takeWhile, hword, ?_, hisWord, hrest⟩
    · cases middle with
      | nil => cases hgap
      | cons c middle =>
        have hc : Text.isBlank c = true := by simpa using hgap
        simp [hc]
    · rw [← hmiddle, List.takeWhile_append_dropWhile]
  · rintro ⟨gap, word, hisName, hne, hgap, rfl, rfl, hisWord, hrest⟩
    obtain ⟨c, gap, rfl⟩ := List.exists_cons_of_ne_nil hne
    have hc : Text.isBlank c = true := hgap c List.mem_cons_self
    obtain ⟨d, ds, hword, hd⟩ := exists_cons_of_isName hisWord
    have hsolid : ∀ e ∈ (word.toList ++ rest).head?, Text.isBlank e = false := by
      rw [hword]
      simpa using isBlank_of_isWord hd
    refine ⟨c :: gap ++ (word.toList ++ rest), ?_, ?_, ?_⟩
    · exact word?_name hisName (by simpa using isWord_of_isBlank hc)
    · simpa using hc
    · rw [List.dropWhile_append_of_pos hgap, Text.dropWhile_isBlank_eq_self hsolid]
      exact word?_name hisWord hrest

/-- The arguments of a type are the group at the front, if a parenthesis stands there. -/
theorem withArguments?_iff {typeName typeText : List Char} :
    withArguments? typeName rest = some (typeText, behind) ↔ ∃ arguments,
      typeText = typeName ++ arguments ∧ rest = arguments ++ behind ∧
      (IsGroup parentheses arguments ∨ arguments = [] ∧ parentheses.opening ∉ behind.head?) := by
  constructor
  · intro h
    unfold withArguments? at h
    split at h
    · rename_i cs
      obtain ⟨n, hn, heq⟩ := Option.map_eq_some_iff.mp h
      obtain ⟨rfl, rfl⟩ := Prod.mk.inj heq
      obtain ⟨-, hgroup⟩ := (closing?_eq_some_iff parentheses_distinct).mp hn
      refine ⟨_, rfl, (List.take_append_drop ..).symm, .inl ?_⟩
      rwa [List.take_succ_cons]
    · rename_i hopening
      obtain ⟨rfl, rfl⟩ := Prod.mk.inj (Option.some.inj h)
      refine ⟨[], (List.append_nil _).symm, rfl, .inr ⟨rfl, fun hmem => ?_⟩⟩
      cases rest with
      | nil => cases hmem
      | cons c rest => exact hopening rest (by rw [Option.some.inj hmem]; rfl)
  · rintro ⟨arguments, rfl, rfl, hgroup | ⟨rfl, hopening⟩⟩
    · obtain ⟨inner, hinner, rfl⟩ := hgroup
      have hclosing : closing? parentheses
          (parentheses.opening :: (inner ++ [parentheses.closing] ++ behind)) =
            some (inner.length + 1) := by
        rw [closing?_eq_some_iff parentheses_distinct]
        refine ⟨by simp, inner, hinner, ?_⟩
        rw [List.take_append_of_le_length (by simp), List.take_of_length_le (by simp)]
      show (closing? parentheses (parentheses.opening :: (inner ++ [parentheses.closing] ++ behind))).map
        _ = _
      rw [hclosing]
      have hlength : inner.length + 1 + 1 = (parentheses.opening :: (inner ++ [parentheses.closing])).length := by
        simp
      rw [Option.map_some, hlength, ← List.cons_append, List.take_left, List.drop_left]
    · rw [List.nil_append, List.append_nil]
      unfold withArguments?
      split
      · exact absurd rfl hopening
      · rfl

/-- A mark at the front, if it is there, and the text behind it make the text. -/
theorem flagText_mark (m cs : List Char) : flagText (mark m cs).1 m ++ (mark m cs).2 = cs := by
  unfold mark
  split
  · rename_i tail htail
    exact List.isPrefixOf?_eq_some_iff_append_eq.mp htail
  · rfl

theorem head?_flagText {c : Char} {p : Char → Prop} (hc : p c) (hrest : ∀ d ∈ rest.head?, p d) (flag : Bool)
    (m : List Char) : ∀ d ∈ (flagText flag (c :: m) ++ rest).head?, p d := by
  cases flag with
  | false => exact hrest
  | true => simpa [flagText] using hc

/-- Behind a type stand marks, blanks or nothing. -/
theorem head?_behindType {p : Char → Prop} (hbracket : p '[') (hmark : p '?')
    (hblank : ∀ c, Text.isBlank c = true → p c) (hrest : ∀ c ∈ rest.head?, Text.isBlank c = true)
    (isArray isOptional : Bool) : ∀ c ∈ (behindType isArray isOptional rest).head?, p c :=
  head?_flagText hbracket (head?_flagText hmark (fun c hc => hblank c (hrest c hc)) isOptional []) isArray _

/-- What stands behind the marks of a type is read as attributes. -/
theorem attributes?_behindType (hrest : ∀ c ∈ rest.head?, Text.isBlank c = true) (hfeed : '\n' ∉ rest)
    (isArray isOptional : Bool) :
    attributes? (mark ['?'] (mark ['[', ']'] (behindType isArray isOptional rest)).2).2 =
      some (rest.dropWhile Text.isBlank) := by
  have hno {c : Char} (hc : Text.isBlank c = false) : ∀ d ∈ rest.head?, d ≠ c := by
    intro d hd heq
    rw [← heq, hrest d hd] at hc
    cases hc
  have hbracket : ∀ d ∈ (flagText isOptional ['?'] ++ rest).head?, d ≠ '[' :=
    head?_flagText (by decide) (hno (by decide)) isOptional []
  rw [behindType, mark_flagText (fun hmem => hbracket _ hmem rfl),
    mark_flagText (fun hmem => hno (by decide) _ hmem rfl)]
  refine attributes?_eq_some_iff.mpr ⟨hrest, rfl, fun hmem => hfeed ?_⟩
  exact (List.dropWhile_suffix Text.isBlank).subset hmem

end Pieces

/-- A text without line feeds is read as a field exactly if it declares one. -/
theorem ofContent_iff {text : List Char} (hfeed : '\n' ∉ text) (description : Option String)
    (name typeName : String) :
    (∃ f, FieldLine.ofContent text description = .ok f ∧ f.name = name ∧ f.typeName = typeName) ↔
      DeclaresField text name typeName := by
  have htypeName (word : String) (arguments : List Char) :
      String.ofList (word.toList ++ arguments) = word ++ String.ofList arguments := by
    rw [String.ofList_append, String.ofList_toList]
  constructor
  · rintro ⟨f, hread, rfl, rfl⟩
    obtain ⟨found, wordText, rest, typeText, behind, attributes, hname, htype, hattributes, rfl⟩ :=
      ofContent_eq_ok_iff.mp hread
    rw [← String.toList_ofList (l := found)] at hname
    obtain ⟨gap, word, hisName, hne, hgap, rfl, rfl, hisWord, -⟩ := nameAndType?_iff.mp hname
    obtain ⟨arguments, rfl, rfl, harguments⟩ := withArguments?_iff.mp htype
    obtain ⟨hblank, -, -⟩ := attributes?_eq_some_iff.mp hattributes
    refine ⟨gap, word, arguments, _, (mark ['[', ']'] behind).1, (mark ['?'] (mark ['[', ']'] behind).2).1,
      hisName, hne, hgap, hisWord, harguments.symm.imp And.left id, htypeName word arguments, hblank, ?_⟩
    show _ = _ ++ (gap ++ ((String.ofList (word.toList ++ arguments)).toList ++ _))
    rw [behindType, flagText_mark, flagText_mark, String.toList_ofList, String.toList_ofList,
      List.append_assoc]
  · rintro ⟨gap, word, arguments, tail, isArray, isOptional, hisName, hne, hgap, hisWord, harguments,
      rfl, hblank, rfl⟩
    have hname : nameAndType? (name.toList ++ (gap ++ (word.toList ++ (arguments ++
        behindType isArray isOptional tail)))) =
          some (name.toList, word.toList, arguments ++ behindType isArray isOptional tail) := by
      refine nameAndType?_iff.mpr ⟨gap, word, hisName, hne, hgap, rfl, rfl, hisWord, ?_⟩
      rcases harguments with rfl | ⟨inner, -, rfl⟩
      · exact head?_behindType (by decide) (by decide) (fun c => isWord_of_isBlank) hblank _ _
      · intro c hc
        obtain rfl := Option.some.inj hc
        decide
    have htype : withArguments? word.toList (arguments ++ behindType isArray isOptional tail) =
        some (word.toList ++ arguments, behindType isArray isOptional tail) := by
      refine withArguments?_iff.mpr ⟨arguments, rfl, rfl, harguments.symm.imp id fun hnil => ⟨hnil, ?_⟩⟩
      have hopening : ∀ c ∈ (behindType isArray isOptional tail).head?, c ≠ parentheses.opening := by
        refine head?_behindType (by decide) (by decide) (fun c hc heq => ?_) hblank _ _
        rw [heq] at hc
        exact absurd hc (by decide)
      exact fun hmem => hopening _ hmem rfl
    have htail : '\n' ∉ tail := fun hmem => hfeed (by simp [behindType, hmem])
    have hattributes := attributes?_behindType hblank htail isArray isOptional
    refine ⟨_, ofContent_eq_ok_iff.mpr ⟨name.toList, word.toList, _, word.toList ++ arguments, _,
      tail.dropWhile Text.isBlank, ?_, htype, hattributes, rfl⟩, String.ofList_toList,
      htypeName word arguments⟩
    rw [String.toList_append, String.toList_ofList, List.append_assoc]
    exact hname

/-- A text declares one field at most. -/
theorem DeclaresField.unique {text : List Char} (hfeed : '\n' ∉ text) {name typeName name' typeName' : String}
    (h : DeclaresField text name typeName) (h' : DeclaresField text name' typeName') :
    name = name' ∧ typeName = typeName' := by
  obtain ⟨f, hread, rfl, rfl⟩ := (ofContent_iff hfeed none name typeName).mpr h
  obtain ⟨f', hread', rfl, rfl⟩ := (ofContent_iff hfeed none name' typeName').mpr h'
  rw [hread] at hread'
  obtain rfl := Except.ok.inj hread'
  exact ⟨rfl, rfl⟩

/-! ## Lines -/

/-- Whether the raw field has the name and the type that the text declares. -/
def IsFieldOf (text : List Char) (raw : RawField) : Prop :=
  ∃ name typeName, DeclaresField text name typeName ∧ raw.name = some name ∧
    raw.typeToken = some typeName

/-- Whether the value is the word at the front of the text. -/
def IsValueOf (text : List Char) (value : String) : Prop :=
  ∃ rest, StartsWith text value rest

theorem resolve_typeToken (enums : List RawEnum) (line : FieldLine) :
    (resolve enums line).typeToken = some line.typeName := by
  unfold resolve
  split
  · rfl
  · split
    · rfl
    · split <;> rfl

theorem map_eq_error_iff {ε α β : Type} {x : Except ε α} {f : α → β} {e : ε} :
    x.map f = .error e ↔ x = .error e := by
  cases x <;> simp [Except.map]

section Lines

variable {enums : List RawEnum} {number : Nat} {docs : List String} {line : List Char}
  {lines : List (List Char)}

/-- A line without content declares nothing. -/
theorem fieldsOfLines_skip (h : content? line = none) : ∃ number' docs',
    fieldsOfLines enums number docs (line :: lines) = fieldsOfLines enums number' docs' lines := by
  have hline : FieldLine.ofLine line (descriptionOf docs) = .ok none := by rw [FieldLine.ofLine, h]
  rw [fieldsOfLines, hline]
  split
  · exact ⟨_, _, rfl⟩
  · exact ⟨_, _, rfl⟩

/-- A line with content declares a field, or no line is read. -/
theorem fieldsOfLines_read {text : List Char} (h : content? line = some text) :
    fieldsOfLines enums number docs (line :: lines) =
      match FieldLine.ofContent text (descriptionOf docs) with
      | .error fault => .error (number, fault)
      | .ok f => (fieldsOfLines enums (number + 1) [] lines).map (resolve enums f :: ·) := by
  have hdoc : docLine? line = none := by
    cases hdoc : docLine? line with
    | none => rfl
    | some doc =>
      rw [content?_of_docLine? hdoc] at h
      cases h
  simp only [fieldsOfLines, hdoc, FieldLine.ofLine, h]
  cases FieldLine.ofContent text (descriptionOf docs) with
  | error fault => rfl
  | ok f => rfl

/-- The fields of lines are those of their texts, in order. -/
theorem fieldsOfLines_ok (hlines : ∀ line ∈ lines, '\n' ∉ line) {fields : List RawField}
    (h : fieldsOfLines enums number docs lines = .ok fields) :
    List.Forall₂ IsFieldOf (lines.filterMap content?) fields := by
  induction lines generalizing number docs fields with
  | nil =>
    obtain rfl := Except.ok.inj h
    exact .nil
  | cons line lines ih =>
    rw [List.forall_mem_cons] at hlines
    cases hcontent : content? line with
    | none =>
      obtain ⟨number', docs', hskip⟩ := fieldsOfLines_skip hcontent
      rw [List.filterMap_cons_none hcontent]
      exact ih hlines.2 (hskip ▸ h)
    | some text =>
      rw [fieldsOfLines_read hcontent] at h
      rw [List.filterMap_cons_some hcontent]
      split at h
      · cases h
      · rename_i f hread
        obtain ⟨later, hlater, rfl⟩ := map_eq_ok_iff.mp h
        have hfeed := no_feed_of_content? hcontent hlines.1
        have hdeclares := (ofContent_iff hfeed _ f.name f.typeName).mp ⟨f, hread, rfl, rfl⟩
        apply List.Forall₂.cons
        · exact ⟨f.name, f.typeName, hdeclares, (resolve_wellShaped enums f).2.2, resolve_typeToken enums f⟩
        · exact ih hlines.2 hlater

/-- Where lines cannot be read, one of their texts declares no field. -/
theorem fieldsOfLines_error (hlines : ∀ line ∈ lines, '\n' ∉ line) {fault : Nat × LineFault}
    (h : fieldsOfLines enums number docs lines = .error fault) :
    ∃ text ∈ lines.filterMap content?, ∀ name typeName, ¬DeclaresField text name typeName := by
  induction lines generalizing number docs with
  | nil => cases h
  | cons line lines ih =>
    rw [List.forall_mem_cons] at hlines
    cases hcontent : content? line with
    | none =>
      obtain ⟨number', docs', hskip⟩ := fieldsOfLines_skip hcontent
      rw [List.filterMap_cons_none hcontent]
      exact ih hlines.2 (hskip ▸ h)
    | some text =>
      rw [fieldsOfLines_read hcontent] at h
      rw [List.filterMap_cons_some hcontent]
      split at h
      · rename_i hfault
        refine ⟨text, List.mem_cons_self, ?_⟩
        intro name typeName hdeclares
        have hfeed := no_feed_of_content? hcontent hlines.1
        obtain ⟨f, hread, -, -⟩ := (ofContent_iff hfeed (descriptionOf docs) name typeName).mpr hdeclares
        rw [hfault] at hread
        cases hread
      · obtain ⟨other, hmem, hnot⟩ := ih hlines.2 (map_eq_error_iff.mp h)
        exact ⟨other, List.mem_cons_of_mem _ hmem, hnot⟩

/-- The values of lines are those of their texts, in order. -/
theorem enumValues_ok {values : List String} (h : enumValues lines = .ok values) :
    List.Forall₂ IsValueOf (lines.filterMap content?) values := by
  induction lines generalizing values with
  | nil =>
    obtain rfl := Except.ok.inj h
    exact .nil
  | cons line lines ih =>
    rw [enumValues] at h
    split at h
    · rename_i hnone
      rw [List.filterMap_cons_none hnone]
      exact ih h
    · rename_i text htext
      rw [List.filterMap_cons_some htext]
      split at h
      · cases h
      · rename_i word rest hword
        obtain ⟨value, rfl, hvalue⟩ := word?_iff.mp hword
        obtain ⟨later, hlater, rfl⟩ := map_eq_ok_iff.mp h
        rw [String.ofList_toList]
        exact .cons ⟨rest, hvalue⟩ (ih hlater)

theorem enumValues_error {fault : List Char} (h : enumValues lines = .error fault) :
    ∃ text ∈ lines.filterMap content?, ∀ value, ¬IsValueOf text value := by
  induction lines with
  | nil => cases h
  | cons line lines ih =>
    rw [enumValues] at h
    split at h
    · rename_i hnone
      rw [List.filterMap_cons_none hnone]
      exact ih h
    · rename_i text htext
      rw [List.filterMap_cons_some htext]
      split at h
      · rename_i hnone
        refine ⟨text, List.mem_cons_self, ?_⟩
        rintro value ⟨rest, hvalue⟩
        have hword := word?_iff.mpr ⟨value, rfl, hvalue⟩
        rw [hnone] at hword
        cases hword
      · obtain ⟨other, hmem, hnot⟩ := ih (map_eq_error_iff.mp h)
        exact ⟨other, List.mem_cons_of_mem _ hmem, hnot⟩

end Lines

/-! ## Blocks -/

/-- Whether the issue reports that the block cannot be read. -/
def Block.IsReportedBy (b : Block) (i : Issue) : Prop :=
  i.code = .schemaParseError ∧ i.element = some b.name ∧ i.path = b.sourcePath

/-- What may become of an enum block. A raw enum has the value of each text, in order. An issue says that a
text has none, or that there are no texts. -/
def EnumOutcome (b : Block) : Except Issue RawEnum → Prop
  | .ok e => e.name = b.name ∧ e.sourcePath = b.sourcePath ∧ e.values ≠ [] ∧
      List.Forall₂ IsValueOf (bodyTexts b.body) e.values
  | .error i => b.IsReportedBy i ∧
      (bodyTexts b.body = [] ∨ ∃ text ∈ bodyTexts b.body, ∀ value, ¬IsValueOf text value)

/-- What may become of a block of fields. A raw model has a field for each text, in order. An issue says that
a text declares none. -/
def ModelOutcome (b : Block) : Except Issue RawModel → Prop
  | .ok m => m.name = b.name ∧ m.sourcePath = b.sourcePath ∧ m.description = b.description ∧
      List.Forall₂ IsFieldOf (bodyTexts b.body) m.fields
  | .error i => b.IsReportedBy i ∧
      ∃ text ∈ bodyTexts b.body, ∀ name typeName, ¬DeclaresField text name typeName

theorem enumOfBlock_outcome (b : Block) :
    EnumOutcome b ((enumOfBlock b).mapError BlockFault.issue) := by
  unfold enumOfBlock
  cases hvalues : enumValues (Text.splitLines b.body) with
  | error line =>
    refine ⟨⟨rfl, rfl, rfl⟩, .inr ?_⟩
    rw [bodyTexts_eq]
    exact enumValues_error hvalues
  | ok values =>
    have htexts := enumValues_ok hvalues
    rw [← bodyTexts_eq] at htexts
    cases values with
    | nil => exact ⟨⟨rfl, rfl, rfl⟩, .inl (List.forall₂_nil_right_iff.mp htexts)⟩
    | cons value values => exact ⟨rfl, rfl, List.cons_ne_nil _ _, htexts⟩

theorem modelOfBlock_outcome (enums : List RawEnum) (b : Block) :
    ModelOutcome b ((modelOfBlock enums b).mapError BlockFault.issue) := by
  have hlines : ∀ line ∈ Text.splitLines b.body, '\n' ∉ line := fun line => no_feed_of_mem_splitLines
  unfold modelOfBlock
  cases hfields : fieldsOfLines enums b.line [] (Text.splitLines b.body) with
  | error fault =>
    refine ⟨⟨rfl, rfl, rfl⟩, ?_⟩
    rw [bodyTexts_eq]
    exact fieldsOfLines_error hlines hfields
  | ok fields =>
    refine ⟨rfl, rfl, rfl, ?_⟩
    rw [bodyTexts_eq]
    exact fieldsOfLines_ok hlines hfields

/-! ## Schemas -/

section Outcomes

variable {α ε : Type}

/-- The fault, if there is no result. -/
def failure? : Except ε α → Option ε
  | .ok _ => none
  | .error e => some e

/-- What comes out of some blocks. -/
def yielded (outcomes : List (Except Issue α)) : List α :=
  outcomes.filterMap Except.toOption

/-- The issues about some blocks. -/
def reported (outcomes : List (Except Issue α)) : List Issue :=
  outcomes.filterMap failure?

theorem partition_snd (xs : List (Except ε α)) : (partition xs).2 = xs.filterMap failure? := by
  induction xs with
  | nil => rfl
  | cons x xs ih =>
    cases x with
    | ok a => rw [partition, ih, List.filterMap_cons_none rfl]
    | error e => simp [partition, failure?, ih]

theorem yielded_partition (results : List (Except BlockFault α)) :
    yielded (results.map (·.mapError BlockFault.issue)) = (partition results).1 := by
  rw [yielded, List.filterMap_map, partition_fst]
  congr 1
  funext result
  cases result <;> rfl

theorem reported_partition (results : List (Except BlockFault α)) :
    reported (results.map (·.mapError BlockFault.issue)) = (partition results).2.map BlockFault.issue := by
  rw [reported, List.filterMap_map, partition_snd, List.map_filterMap]
  congr 1
  funext result
  cases result <;> rfl

end Outcomes

/-- The blocks that are found in some sources and have a keyword of one sort, in order. -/
def blocksWith (p : Keyword → Bool) (sources : List Source) : List Block :=
  ((scanAll sources).filterMap Found.block?).filter fun b => p b.keyword

/-- Every enum block and every block of fields has one outcome, and a schema consists of these outcomes, in
order, and of the issues about headers that are left open. -/
theorem blocks_accounted (sources : List Source) :
    ∃ (enumOutcomes : List (Except Issue RawEnum)) (modelOutcomes : List (Except Issue RawModel)),
      List.Forall₂ EnumOutcome (blocksWith (· == .enum) sources) enumOutcomes ∧
      List.Forall₂ ModelOutcome (blocksWith Keyword.declaresFields sources) modelOutcomes ∧
      (Schema.ofSources sources).raw =
        { models := yielded modelOutcomes
          enums := yielded enumOutcomes
          issues := ((scanAll sources).filterMap Found.fault?).map BlockFault.issue ++
            reported enumOutcomes ++ reported modelOutcomes } := by
  refine ⟨((blocksWith (· == .enum) sources).map enumOfBlock).map (·.mapError BlockFault.issue),
    ((blocksWith Keyword.declaresFields sources).map
      (modelOfBlock (Schema.ofSources sources).enums)).map (·.mapError BlockFault.issue), ?_, ?_, ?_⟩
  · rw [List.map_map, List.forall₂_map_right_iff]
    exact List.forall₂_same.mpr fun b _ => enumOfBlock_outcome b
  · rw [List.map_map, List.forall₂_map_right_iff]
    exact List.forall₂_same.mpr fun b _ => modelOfBlock_outcome _ b
  · rw [yielded_partition, yielded_partition, reported_partition, reported_partition, ← List.map_append,
      ← List.map_append]
    rfl

end SchemaTypes.Prisma
