import SchemaTypes.Proofs.Declaration.TypeTree

/-!
# Declarations determine their trees

The text of a type is read off the front of a longer text in one way only: the first character tells
an atom, a choice and an object apart, a literal ends at its first quote that is not escaped, a word
ends where its characters end, and what follows a type is never the start of something longer. So two
declarations with the same text declare the same properties, in spite of names and values that may
hold any characters.

Each statement has the same form: if two texts with what follows them are equal, then what they were
written from is equal, and so is what follows.

Results:
* `literal_append_inj`, `propertyKey_append_inj`: literals and keys.
* `item_unambiguous`, `type_unambiguous`, `properties_unambiguous`: by induction on the tree.
* `interface_determines_properties`: the declaration of a model determines its name and properties.
-/

namespace SchemaTypes.Declaration

/-! ## Fronts of texts -/

theorem takeWhile_eq_nil {p : Char → Bool} {r : List Char} (h : ∀ c ∈ r.head?, p c = false) :
    r.takeWhile p = [] := by
  cases r with
  | nil => rfl
  | cons c r => simp [h c rfl]

/-- Two texts of characters of one kind, each followed by a character of another kind. -/
theorem append_inj_of_all {p : Char → Bool} {a b r s : List Char} (ha : ∀ c ∈ a, p c = true)
    (hb : ∀ c ∈ b, p c = true) (hr : ∀ c ∈ r.head?, p c = false) (hs : ∀ c ∈ s.head?, p c = false)
    (h : a ++ r = b ++ s) : a = b ∧ r = s := by
  have hfront := congrArg (List.takeWhile p) h
  rw [List.takeWhile_append_of_pos ha, List.takeWhile_append_of_pos hb, takeWhile_eq_nil hr,
    takeWhile_eq_nil hs, List.append_nil, List.append_nil] at hfront
  subst hfront
  exact ⟨rfl, List.append_cancel_left h⟩

/-! ## Literals and keys -/

theorem literalChar_append_inj {c d : Char} {r s : List Char}
    (h : literalChar c ++ r = literalChar d ++ s) : c = d ∧ r = s := by
  unfold literalChar at h
  split at h <;> split at h <;> simp_all only [List.cons_append, List.nil_append, List.cons.injEq,
    and_self, true_and, not_or, not_true_eq_false, false_and]

theorem literalChar_append_ne {c : Char} {r s : List Char} : literalChar c ++ r ≠ '\'' :: s := by
  unfold literalChar
  split <;> simp_all

theorem literalBody_append_inj {a b r s : List Char}
    (h : literalBody a ++ '\'' :: r = literalBody b ++ '\'' :: s) : a = b ∧ r = s := by
  induction a generalizing b with
  | nil =>
    cases b with
    | nil => simpa [literalBody] using h
    | cons d b =>
      simp only [literalBody, List.flatMap_nil, List.nil_append, List.flatMap_cons,
        List.append_assoc] at h
      exact absurd h.symm literalChar_append_ne
  | cons c a ih =>
    cases b with
    | nil =>
      simp only [literalBody, List.flatMap_nil, List.nil_append, List.flatMap_cons,
        List.append_assoc] at h
      exact absurd h literalChar_append_ne
    | cons d b =>
      simp only [literalBody, List.flatMap_cons, List.append_assoc] at ih h
      obtain ⟨rfl, hbody⟩ := literalChar_append_inj h
      obtain ⟨rfl, hrest⟩ := ih hbody
      exact ⟨rfl, hrest⟩

theorem toList_literal (s : String) : (literal s).toList = '\'' :: literalBody s.toList ++ ['\''] := by
  simp [literal]

theorem literal_append_inj {a b : String} {r s : List Char}
    (h : (literal a).toList ++ r = (literal b).toList ++ s) : a = b ∧ r = s := by
  simp only [toList_literal, List.cons_append, List.append_assoc, List.nil_append, List.cons.injEq,
    true_and] at h
  obtain ⟨hab, hrs⟩ := literalBody_append_inj h
  exact ⟨String.toList_inj.mp hab, hrs⟩

theorem continuesIdentifier_of_starts {c : Char} (h : startsIdentifier c = true) :
    continuesIdentifier c = true := by
  simp only [startsIdentifier, continuesIdentifier, Char.isAlphanum, Bool.or_eq_true] at h ⊢
  rcases h with (h | h) | h <;> simp [h]

theorem isIdentifier_all {cs : List Char} (h : isIdentifier cs = true) :
    ∀ c ∈ cs, continuesIdentifier c = true := by
  cases cs with
  | nil => simp
  | cons c cs =>
    simp only [isIdentifier, Bool.and_eq_true, List.all_eq_true] at h
    intro d hd
    rcases List.mem_cons.mp hd with rfl | hd
    · exact continuesIdentifier_of_starts h.1
    · exact h.2 d hd

/-- A key is a literal, or an identifier that a line feed may follow. -/
theorem propertyKey_cases (name : String) : propertyKey name = literal name ∨
    propertyKey name = name ∧ ∃ word tail, name.toList = word ++ tail ∧ isIdentifier word = true ∧
      (tail = [] ∨ tail = ['\n']) := by
  unfold propertyKey
  split
  · rename_i h
    refine Or.inr ⟨rfl, ?_⟩
    unfold withoutLastFeed at h
    split at h
    · rename_i hlast
      obtain ⟨word, hword⟩ := List.getLast?_eq_some_iff.mp hlast
      rw [hword, List.dropLast_concat] at h
      exact ⟨word, ['\n'], hword, h, Or.inr rfl⟩
    · exact ⟨name.toList, [], by simp, h, Or.inl rfl⟩
  · exact Or.inl rfl

/-- What follows a key: whether the property is required. -/
def endsKey : List Char → Bool
  | c :: _ => c == ':' || c == '?'
  | [] => false

theorem endsKey_clauseStart (required : Bool) (r : List Char) :
    endsKey (clauseStart required ++ r) = true := by
  cases required <;> rfl

theorem head_of_endsKey {r : List Char} (h : endsKey r = true) :
    ∀ c ∈ r.head?, c = ':' ∨ c = '?' := by
  cases r with
  | nil => simp [endsKey] at h
  | cons c r => simpa [endsKey] using h

/-- The word of an identifier is what stands before its line feed or before what ends the key. -/
theorem continuesIdentifier_after {tail r : List Char} (htail : tail = [] ∨ tail = ['\n'])
    (hr : endsKey r = true) : ∀ c ∈ (tail ++ r).head?, continuesIdentifier c = false := by
  rcases htail with rfl | rfl
  · intro c hc
    rcases head_of_endsKey hr c hc with rfl | rfl <;> decide
  · intro c hc
    simp only [List.cons_append, List.head?_cons, Option.mem_def, Option.some.injEq] at hc
    subst hc
    decide

theorem identifier_append_inj {v w tail tail' r s : List Char} (hv : isIdentifier v = true)
    (hw : isIdentifier w = true) (htail : tail = [] ∨ tail = ['\n'])
    (htail' : tail' = [] ∨ tail' = ['\n']) (hr : endsKey r = true) (hs : endsKey s = true)
    (h : v ++ tail ++ r = w ++ tail' ++ s) : v ++ tail = w ++ tail' ∧ r = s := by
  rw [List.append_assoc, List.append_assoc] at h
  obtain ⟨rfl, hrest⟩ := append_inj_of_all (isIdentifier_all hv) (isIdentifier_all hw)
    (continuesIdentifier_after htail hr) (continuesIdentifier_after htail' hs) h
  rcases htail with rfl | rfl <;> rcases htail' with rfl | rfl
  · exact ⟨rfl, hrest⟩
  · subst hrest
    simp [endsKey] at hr
  · subst hrest
    simp [endsKey] at hs
  · exact ⟨rfl, List.append_cancel_left hrest⟩

/-- An identifier does not start with a quote. -/
theorem identifier_append_ne_literal {word t r s : List Char} {name : String}
    (hword : isIdentifier word = true) : word ++ t ++ r ≠ (literal name).toList ++ s := by
  cases word with
  | nil => simp [isIdentifier] at hword
  | cons c word =>
    simp only [isIdentifier, Bool.and_eq_true] at hword
    intro h
    simp only [toList_literal, List.cons_append, List.cons.injEq] at h
    rw [h.1] at hword
    exact absurd hword.1 (by decide)

theorem propertyKey_append_inj {a b : String} {r s : List Char} (hr : endsKey r = true)
    (hs : endsKey s = true) (h : (propertyKey a).toList ++ r = (propertyKey b).toList ++ s) :
    a = b ∧ r = s := by
  rcases propertyKey_cases a with ha | ⟨ha, v, tail, hv, hvword, htail⟩ <;>
    rcases propertyKey_cases b with hb | ⟨hb, w, tail', hw, hwword, htail'⟩ <;>
    rw [ha, hb] at h
  · exact literal_append_inj h
  · rw [hw] at h
    exact absurd h.symm (identifier_append_ne_literal hwword)
  · rw [hv] at h
    exact absurd h (identifier_append_ne_literal hvword)
  · rw [hv, hw] at h
    obtain ⟨hab, hrs⟩ := identifier_append_inj hvword hwword htail htail' hr hs h
    exact ⟨String.toList_inj.mp (by rw [hv, hw, hab]), hrs⟩

/-! ## Items -/

/-- What follows an item: the end of a property, the brackets of an array or the parenthesis before
them. A choice that goes on is followed by a quote after its bar. -/
def endsItem : List Char → Bool
  | ';' :: _ => true
  | '[' :: _ => true
  | ')' :: _ => true
  | ' ' :: '|' :: ' ' :: 'n' :: _ => true
  | _ => false

theorem endsItem_clauseEnd (required : Bool) (r : List Char) :
    endsItem (clauseEnd required ++ r) = true := by
  cases required <;> rfl

theorem head_of_endsItem {r : List Char} (h : endsItem r = true) :
    ∃ c cs, r = c :: cs ∧ c ∈ [';', '[', ')', ' '] := by
  unfold endsItem at h
  split at h <;> simp_all

theorem isWord_of_endsItem {r : List Char} (h : endsItem r = true) :
    ∀ c ∈ r.head?, Text.isWord c = false := by
  obtain ⟨d, ds, rfl, hd⟩ := head_of_endsItem h
  intro c hc
  simp only [List.head?_cons, Option.mem_def, Option.some.injEq] at hc
  subst hc
  simp only [List.mem_cons, List.not_mem_nil, or_false] at hd
  rcases hd with rfl | rfl | rfl | rfl <;> decide

/-- An atom is a word that may have a tail in angle brackets. -/
theorem atom_cases {text : String} (h : (ItemTree.atom text).isClear = true) :
    ∃ word tail, text.toList = word ++ tail ∧ word ≠ [] ∧ (∀ c ∈ word, Text.isWord c = true) ∧
      (tail = [] ∨ tail = "<string, unknown>".toList) := by
  simp only [ItemTree.isClear, Text.isName, Bool.or_eq_true, Bool.and_eq_true, bne_iff_ne,
    List.all_eq_true, beq_iff_eq] at h
  rcases h with ⟨hne, hall⟩ | rfl
  · exact ⟨text.toList, [], by simp, by simpa using hne, hall, Or.inl rfl⟩
  · exact ⟨"Record".toList, _, rfl, by simp,
      Text.forall_mem_of_all (by decide), Or.inr rfl⟩

theorem isWord_after_atom {tail r : List Char} (htail : tail = [] ∨ tail = "<string, unknown>".toList)
    (hr : endsItem r = true) : ∀ c ∈ (tail ++ r).head?, Text.isWord c = false := by
  rcases htail with rfl | rfl
  · exact isWord_of_endsItem hr
  · simp; decide

theorem atom_append_inj {a b : String} {r s : List Char} (ha : (ItemTree.atom a).isClear = true)
    (hb : (ItemTree.atom b).isClear = true) (hr : endsItem r = true) (hs : endsItem s = true)
    (h : a.toList ++ r = b.toList ++ s) : a = b ∧ r = s := by
  obtain ⟨v, tail, hv, -, hvword, htail⟩ := atom_cases ha
  obtain ⟨w, tail', hw, -, hwword, htail'⟩ := atom_cases hb
  rw [hv, hw, List.append_assoc, List.append_assoc] at h
  obtain ⟨rfl, hrest⟩ := append_inj_of_all hvword hwword (isWord_after_atom htail hr)
    (isWord_after_atom htail' hs) h
  rcases htail with rfl | rfl <;> rcases htail' with rfl | rfl
  · exact ⟨String.toList_inj.mp (hv.trans hw.symm), hrest⟩
  · subst hrest
    simp [endsItem] at hr
  · subst hrest
    simp [endsItem] at hs
  · exact ⟨String.toList_inj.mp (hv.trans hw.symm), List.append_cancel_left hrest⟩

/-- The values of a choice after the first one. -/
def moreValues (values : List String) : List Char :=
  values.flatMap fun value => " | ".toList ++ (literal value).toList

theorem toList_union_cons (value : String) (values : List String) :
    (union (value :: values)).toList = (literal value).toList ++ moreValues values := by
  induction values generalizing value with
  | nil => simp [union, moreValues]
  | cons next values ih =>
    have hnext := ih next
    simp only [union, List.map_cons] at hnext ⊢
    rw [String.intercalate_cons_cons, String.toList_append, String.toList_append, hnext]
    simp [moreValues]

theorem moreValues_append_inj {a b : List String} {r s : List Char} (hr : endsItem r = true)
    (hs : endsItem s = true) (h : moreValues a ++ r = moreValues b ++ s) : a = b ∧ r = s := by
  induction a generalizing b with
  | nil =>
    cases b with
    | nil => exact ⟨rfl, h⟩
    | cons w b =>
      simp only [moreValues, List.flatMap_nil, List.nil_append, List.flatMap_cons,
        toList_literal] at h
      rw [h] at hr
      simp [endsItem] at hr
  | cons v a ih =>
    cases b with
    | nil =>
      simp only [moreValues, List.flatMap_nil, List.nil_append, List.flatMap_cons,
        toList_literal] at h
      rw [← h] at hs
      simp [endsItem] at hs
    | cons w b =>
      simp only [moreValues, List.flatMap_cons, List.append_assoc] at h ih
      obtain ⟨rfl, hmore⟩ := literal_append_inj (List.append_cancel_left h)
      obtain ⟨rfl, hrest⟩ := ih hmore
      exact ⟨rfl, hrest⟩

/-- The characters that may start a choice with what follows it. A choice between no values is empty. -/
def choiceFronts : List Char := ['\'', ';', '[', ')', ' ']

theorem head_union (values : List String) {r : List Char} (hr : endsItem r = true) :
    ∃ c cs, (union values).toList ++ r = c :: cs ∧ c ∈ choiceFronts := by
  cases values with
  | nil =>
    obtain ⟨c, cs, rfl, hc⟩ := head_of_endsItem hr
    exact ⟨c, cs, by simp [union], List.mem_cons_of_mem _ hc⟩
  | cons v values =>
    rw [toList_union_cons, toList_literal]
    exact ⟨'\'', _, rfl, List.mem_cons_self⟩

theorem union_append_inj {a b : List String} {r s : List Char} (hr : endsItem r = true)
    (hs : endsItem s = true) (h : (union a).toList ++ r = (union b).toList ++ s) :
    a = b ∧ r = s := by
  have hquote {t : List Char} (ht : endsItem t = true) (v : String) (rest : List Char) :
      t ≠ (literal v).toList ++ rest := by
    obtain ⟨c, cs, rfl, hc⟩ := head_of_endsItem ht
    intro heq
    simp only [toList_literal, List.cons_append, List.cons.injEq] at heq
    exact absurd (heq.1 ▸ hc) (by decide)
  cases a with
  | nil =>
    cases b with
    | nil => exact ⟨rfl, List.append_cancel_left h⟩
    | cons w b =>
      rw [toList_union_cons, List.append_assoc] at h
      exact absurd (by simpa [union] using h) (hquote hr w _)
  | cons v a =>
    cases b with
    | nil =>
      rw [toList_union_cons, List.append_assoc] at h
      exact absurd (by simpa [union] using h.symm) (hquote hs v _)
    | cons w b =>
      rw [toList_union_cons, toList_union_cons, List.append_assoc, List.append_assoc] at h
      obtain ⟨rfl, hmore⟩ := literal_append_inj h
      obtain ⟨rfl, hrest⟩ := moreValues_append_inj hr hs hmore
      exact ⟨rfl, hrest⟩

/-! ## The front of an item -/

/-- The kinds of items. -/
inductive ItemKind where
  | atom
  | choice
  | object
  deriving DecidableEq

/-- The kind of an item. -/
def ItemTree.kind : ItemTree → ItemKind
  | .atom _ => .atom
  | .choice _ => .choice
  | .object _ => .object

/-- Whether an item of the kind, with what follows it, may start with the character. -/
def ItemKind.mayStartWith : ItemKind → Char → Bool
  | .atom, c => Text.isWord c
  | .choice, c => choiceFronts.contains c
  | .object, c => c == '\x7b'

/-- The first character tells the kind of an item. -/
theorem ItemKind.mayStartWith_inj {k l : ItemKind} {c : Char} (hk : k.mayStartWith c = true)
    (hl : l.mayStartWith c = true) : k = l := by
  have hfronts : ∀ c ∈ choiceFronts, Text.isWord c = false ∧ c ≠ '\x7b' :=
    Text.forall_mem_of_all (by decide)
  have hbrace : Text.isWord '\x7b' = false := by decide
  cases k <;> cases l <;> grind [ItemKind.mayStartWith, List.contains_iff_mem]

theorem ItemTree.head_text (readonly : Bool) (depth : Nat) {item : ItemTree}
    (h : item.isClear = true) {r : List Char} (hr : endsItem r = true) :
    ∃ c cs, item.text readonly depth ++ r = c :: cs ∧ item.kind.mayStartWith c = true := by
  cases item with
  | atom text =>
    obtain ⟨word, tail, htext, hne, hword, -⟩ := atom_cases h
    obtain ⟨c, word, rfl⟩ := List.exists_cons_of_ne_nil hne
    exact ⟨c, word ++ tail ++ r, by simp [ItemTree.text, htext], hword c List.mem_cons_self⟩
  | choice values =>
    obtain ⟨c, cs, heq, hc⟩ := head_union values hr
    exact ⟨c, cs, by simpa only [ItemTree.text] using heq, by
      simpa [ItemTree.kind, ItemKind.mayStartWith] using hc⟩
  | object properties =>
    cases properties <;> exact ⟨'\x7b', _, by simp only [ItemTree.text, List.cons_append]; rfl, rfl⟩

theorem ItemTree.kind_eq_of_text {readonly : Bool} {depth : Nat} {a b : ItemTree} {r s : List Char}
    (ha : a.isClear = true) (hb : b.isClear = true) (hr : endsItem r = true)
    (hs : endsItem s = true) (h : a.text readonly depth ++ r = b.text readonly depth ++ s) :
    a.kind = b.kind := by
  obtain ⟨c, cs, hac, hc⟩ := ItemTree.head_text readonly depth ha hr
  obtain ⟨d, ds, hbd, hd⟩ := ItemTree.head_text readonly depth hb hs
  rw [hac, hbd, List.cons.injEq] at h
  exact ItemKind.mayStartWith_inj hc (h.1 ▸ hd)

/-- No item starts with a parenthesis. -/
theorem ItemTree.text_ne_paren {readonly : Bool} {depth : Nat} {item : ItemTree}
    (h : item.isClear = true) {r : List Char} (hr : endsItem r = true) (rest : List Char) :
    item.text readonly depth ++ r ≠ '(' :: rest := by
  obtain ⟨c, cs, heq, hc⟩ := ItemTree.head_text readonly depth h hr
  have hno (k : ItemKind) : k.mayStartWith '(' = false := by cases k <;> decide
  intro hparen
  rw [heq, List.cons.injEq] at hparen
  rw [hparen.1, hno] at hc
  exact absurd hc (by decide)

/-! ## Trees -/

theorem indent_succ (depth : Nat) :
    (indent (depth + 1)).toList = (indent depth).toList ++ [' ', ' '] := by
  simp only [indent, String.toList_ofList, Nat.mul_succ]
  rw [List.replicate_succ', List.replicate_succ', List.append_assoc]
  rfl

/-- The line that closes an object is no line of a property. -/
theorem closingText_append_ne (readonly : Bool) (depth : Nat) (p : Property) (ps : List Property)
    (r s : List Char) : closingText depth ++ r ≠ propertiesText readonly depth (p :: ps) ++ s := by
  intro h
  simp only [closingText, propertiesText_cons, propertyText, linePad, indent_succ, List.cons_append,
    List.append_assoc, List.cons.injEq, true_and] at h
  have hfront := List.append_cancel_left h
  simp only [List.cons.injEq] at hfront
  exact absurd hfront.1 (by decide)

/-- The text of a property, cut where its type starts. -/
theorem propertyText_append (readonly : Bool) (depth : Nat) (name : String) (required : Bool)
    (type rest : List Char) : propertyText readonly depth name required type ++ rest =
      linePad readonly depth ++ ((propertyKey name).toList ++
        (clauseStart required ++ (type ++ (clauseEnd required ++ rest)))) := by
  simp only [propertyText, List.append_assoc]

theorem clauseStart_append_inj {required required' : Bool} {r s : List Char}
    (h : clauseStart required ++ r = clauseStart required' ++ s) : required = required' ∧ r = s := by
  cases required <;> cases required' <;> simp_all [clauseStart]

/-- An array stands in parentheses or as it is. -/
theorem arrayText_cases (element : List Char) :
    arrayText element = '(' :: (element ++ [')', '[', ']']) ∨
      arrayText element = element ++ ['[', ']'] := by
  unfold arrayText
  split
  · exact Or.inl rfl
  · exact Or.inr rfl

theorem brackets_ne_clauseEnd (required : Bool) (r s : List Char) :
    ['[', ']'] ++ r ≠ clauseEnd required ++ s := by
  cases required <;> simp [clauseEnd]

mutual

theorem item_unambiguous (readonly : Bool) : ∀ (a b : ItemTree) (depth : Nat) (r s : List Char),
    a.isClear = true → b.isClear = true → endsItem r = true → endsItem s = true →
      a.text readonly depth ++ r = b.text readonly depth ++ s → a = b ∧ r = s
  | .atom t, .atom u, depth, r, s, ha, hb, hr, hs, h => by
    obtain ⟨rfl, hrest⟩ := atom_append_inj ha hb hr hs (by simpa only [ItemTree.text] using h)
    exact ⟨rfl, hrest⟩
  | .choice values, .choice others, depth, r, s, _, _, hr, hs, h => by
    obtain ⟨rfl, hrest⟩ := union_append_inj hr hs (by simpa only [ItemTree.text] using h)
    exact ⟨rfl, hrest⟩
  | .object [], .object [], depth, r, s, _, _, _, _, h => ⟨rfl, List.append_cancel_left h⟩
  | .object [], .object (q :: qs), depth, r, s, _, _, _, _, h => by
    simp only [ItemTree.text, propertiesText_cons, List.cons_append] at h
    simp at h
  | .object (p :: ps), .object [], depth, r, s, _, _, _, _, h => by
    simp only [ItemTree.text, propertiesText_cons, List.cons_append] at h
    simp at h
  | .object (p :: ps), .object (q :: qs), depth, r, s, ha, hb, _, _, h => by
    simp only [ItemTree.text, List.cons_append, List.cons.injEq, true_and] at h
    obtain ⟨hps, hrest⟩ := properties_unambiguous readonly (p :: ps) (q :: qs) depth r s
      (by simpa only [ItemTree.isClear] using ha) (by simpa only [ItemTree.isClear] using hb) h
    exact ⟨by rw [hps], hrest⟩
  | .atom _, .choice _, depth, r, s, ha, hb, hr, hs, h
  | .atom _, .object _, depth, r, s, ha, hb, hr, hs, h
  | .choice _, .atom _, depth, r, s, ha, hb, hr, hs, h
  | .choice _, .object _, depth, r, s, ha, hb, hr, hs, h
  | .object _, .atom _, depth, r, s, ha, hb, hr, hs, h
  | .object _, .choice _, depth, r, s, ha, hb, hr, hs, h => by
    have hkind := ItemTree.kind_eq_of_text ha hb hr hs h
    simp [ItemTree.kind] at hkind

theorem type_unambiguous (readonly : Bool) : ∀ (a b : TypeTree) (depth : Nat) (required : Bool)
    (r s : List Char), a.isClear = true → b.isClear = true →
      a.text readonly depth ++ (clauseEnd required ++ r) =
        b.text readonly depth ++ (clauseEnd required ++ s) → a = b ∧ r = s
  | .single item, .single other, depth, required, r, s, ha, hb, h => by
    obtain ⟨rfl, hrest⟩ := item_unambiguous readonly item other depth _ _ ha hb
      (endsItem_clauseEnd required r) (endsItem_clauseEnd required s) h
    exact ⟨rfl, List.append_cancel_left hrest⟩
  | .single item, .array other, depth, required, r, s, ha, hb, h => by
    have hend := endsItem_clauseEnd required r
    rcases arrayText_cases (other.text readonly depth) with htext | htext
    · simp only [TypeTree.text, htext, List.cons_append] at h
      exact absurd h (ItemTree.text_ne_paren ha hend _)
    · simp only [TypeTree.text, htext, List.append_assoc] at h
      obtain ⟨-, hrest⟩ := item_unambiguous readonly item other depth _ _ ha hb hend rfl h
      exact absurd hrest.symm (brackets_ne_clauseEnd required _ r)
  | .array item, .single other, depth, required, r, s, ha, hb, h => by
    have hend := endsItem_clauseEnd required s
    rcases arrayText_cases (item.text readonly depth) with htext | htext
    · simp only [TypeTree.text, htext, List.cons_append] at h
      exact absurd h.symm (ItemTree.text_ne_paren hb hend _)
    · simp only [TypeTree.text, htext, List.append_assoc] at h
      obtain ⟨-, hrest⟩ := item_unambiguous readonly item other depth _ _ ha hb rfl hend h
      exact absurd hrest (brackets_ne_clauseEnd required _ s)
  | .array item, .array other, depth, required, r, s, ha, hb, h => by
    rcases arrayText_cases (item.text readonly depth) with hitem | hitem <;>
      rcases arrayText_cases (other.text readonly depth) with hother | hother <;>
      simp only [TypeTree.text, hitem, hother, List.cons_append, List.append_assoc] at h
    · obtain ⟨rfl, hrest⟩ := item_unambiguous readonly item other depth _ _ ha hb rfl rfl
        (List.cons.inj h).2
      exact ⟨rfl, by simpa using hrest⟩
    · exact absurd h.symm (ItemTree.text_ne_paren hb rfl _)
    · exact absurd h (ItemTree.text_ne_paren ha rfl _)
    · obtain ⟨rfl, hrest⟩ := item_unambiguous readonly item other depth _ _ ha hb rfl rfl h
      exact ⟨rfl, by simpa using hrest⟩

theorem properties_unambiguous (readonly : Bool) : ∀ (ps qs : List Property) (depth : Nat)
    (r s : List Char), propertiesClear ps = true → propertiesClear qs = true →
      propertiesText readonly depth ps ++ closingText depth ++ r =
        propertiesText readonly depth qs ++ closingText depth ++ s → ps = qs ∧ r = s
  | [], [], depth, r, s, _, _, h => ⟨rfl, List.append_cancel_left h⟩
  | [], q :: qs, depth, r, s, _, _, h => by
    rw [List.append_assoc _ _ s] at h
    exact absurd h (closingText_append_ne readonly depth q qs r _)
  | p :: ps, [], depth, r, s, _, _, h => by
    rw [List.append_assoc _ _ r] at h
    exact absurd h.symm (closingText_append_ne readonly depth p ps s _)
  | ⟨name, required, type⟩ :: ps, ⟨name', required', type'⟩ :: qs, depth, r, s, hps, hqs, h => by
    simp only [propertiesClear, Bool.and_eq_true] at hps hqs
    simp only [propertiesText, List.cons_append, List.append_assoc, propertyText_append,
      List.cons.injEq, true_and] at h
    obtain ⟨rfl, hclause⟩ := propertyKey_append_inj (endsKey_clauseStart required _)
      (endsKey_clauseStart required' _) (List.append_cancel_left h)
    obtain ⟨rfl, htype⟩ := clauseStart_append_inj hclause
    obtain ⟨rfl, hmore⟩ := type_unambiguous readonly type type' (depth + 1) required _ _ hps.1 hqs.1
      htype
    obtain ⟨rfl, hrest⟩ := properties_unambiguous readonly ps qs depth r s hps.2 hqs.2
      (by simpa only [List.append_assoc] using hmore)
    exact ⟨rfl, hrest⟩

end

/-! ## Declarations -/

/-- Without comments the declaration of a model determines the name of the model and its properties:
their order, their names, which of them are required, and their types at every depth. -/
theorem interface_determines_properties {ctx : Context}
    (hcomments : ctx.style.includeComments = false) (hdate : Text.isName ctx.style.dateType = true)
    {m n : Model} (hm : modelNamed m = true) (hn : modelNamed n = true)
    (h : interface ctx m = interface ctx n) :
    m.name = n.name ∧ propertiesOf ctx m.fields = propertiesOf ctx n.fields := by
  simp only [modelNamed, Bool.and_eq_true] at hm hn
  have htext := congrArg String.toList h
  rw [interface_eq_text hcomments hm.2, interface_eq_text hcomments hn.2] at htext
  simp only [List.append_assoc] at htext
  obtain ⟨hname, hbody⟩ := append_inj_of_all (Text.isName_iff.mp hm.1).2 (Text.isName_iff.mp hn.1).2
    (by simp; decide) (by simp; decide) (List.append_cancel_left htext)
  obtain ⟨hproperties, -⟩ := properties_unambiguous ctx.style.readonly _ _ 0 [] []
    (propertiesOf_isClear hdate m.fields hm.2) (propertiesOf_isClear hdate n.fields hn.2)
    (by simpa using List.append_cancel_left hbody)
  exact ⟨String.toList_inj.mp hname, hproperties⟩

/-- A style without comments that spells dates like the name of a model. -/
def momentContext : Context :=
  ⟨[], [], { includeComments := false, dateType := "Moment" }⟩

/-- A model with one array whose key is no identifier. -/
def visit (item : ItemType) : Model :=
  ⟨"Visit", [⟨"it's at", false, .array item false, false, none, false, false, none⟩], .prisma, none,
    none⟩

/-- Dates that are spelled like the name of a model are declared like references to it. -/
theorem interface_determines_visit :
    interface momentContext (visit (.scalar .date)) =
        interface momentContext (visit (.reference "Moment")) ∧
      propertiesOf momentContext (visit (.scalar .date)).fields =
        propertiesOf momentContext (visit (.reference "Moment")).fields :=
  ⟨by decide, (interface_determines_properties rfl (by decide) (by decide) (by decide)
    (by decide)).2⟩

end SchemaTypes.Declaration
