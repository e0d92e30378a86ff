import SchemaTypes.Proofs.Prisma.Quotes

/-!
# Attributes that stand in quotes

Attributes are searched for in the text as it stands, in quotes and outside. A hit cannot reach over a quote,
since no quote belongs to an attribute up to its parenthesis. So the search in the whole text is the search in
two texts, the one without the contents of quotes and the one with nothing else. This tells exactly when
other contents change a flag of a field: when its attribute does not stand outside quotes, and stands in
quotes before or after, but not both. In this they differ from comments and parentheses, for which quotes
are opaque.

Results:
* `standsWhere_split`, `Flag.standsIn_split`: searches in quotes and outside.
* `Refilled.outside_eq`: other contents leave what stands outside as it is.
* `Flag.isSet_eq_iff`: when a flag does not depend on contents.
* `flags_unchanged_iff`: fields, flags and whether a value is required.
* `flags_changed`: a line whose flags depend on contents.
-/

namespace SchemaTypes.Prisma

/-! ## Flags -/

/-- What an attribute says about a field, beside the text of a default. -/
inductive Flag where
  | primary
  | unique
  | default
  deriving DecidableEq

namespace Flag

/-- The name of the attribute that sets the flag. -/
def key : Flag → List Char
  | primary => ['i', 'd']
  | unique => "unique".toList
  | default => "default".toList

/-- Whether the flag is set. -/
def isSet : Flag → FieldLine → Bool
  | primary, f => f.isPrimary
  | unique, f => f.isUnique
  | default, f => f.defaultValue.isSome

/-- Whether the attribute that sets the flag stands somewhere in the text. -/
def standsIn : Flag → List Char → Bool
  | default, cs => (attributeArguments? default.key none cs).isSome
  | flag, cs => hasAttribute flag.key none cs

end Flag

/-- A flag is read off the attributes. -/
theorem Flag.isSet_ofLine {line : List Char} {description : Option String} {f : FieldLine}
    (h : FieldLine.ofLine line description = .ok (some f)) (flag : Flag) :
    flag.isSet f = flag.standsIn f.attributes.toList := by
  obtain ⟨text, -, hread⟩ := ofLine_eq_ok_some_iff.mp h
  obtain ⟨_, _, _, _, _, attributes, -, -, -, rfl⟩ := ofContent_eq_ok_iff.mp hread
  have htext : (String.ofList attributes).toList = attributes := String.toList_ofList
  show isSet flag _ = standsIn flag (String.ofList attributes).toList
  rw [htext]
  cases flag with
  | default => exact Option.isSome_map
  | primary | unique => rfl

/-! ## Attributes in quotes and outside -/

/-- The text without the contents of quotes. The quotes stay. -/
def outside : Mode → List Char → List Char
  | _, [] => []
  | mode, c :: cs =>
    let next := mode.after false c none
    if mode.inQuotes && next.inQuotes then outside next cs else c :: outside next cs

/-- The contents of quotes, with the quotes. -/
def inside : Mode → List Char → List Char
  | _, [] => []
  | mode, c :: cs =>
    let next := mode.after false c none
    if mode.inQuotes || next.inQuotes then c :: inside next cs else inside next cs

/-- The text up to the first quote. -/
def upToQuote (cs : List Char) : List Char :=
  cs.takeWhile (· != '"')

section Split

variable {mode : Mode} {c : Char}

theorem outside_code (h : c ≠ '"') (cs : List Char) :
    outside .code (c :: cs) = c :: outside .code cs := by
  rw [outside, after_code h]
  rfl

theorem inside_code (h : c ≠ '"') (cs : List Char) : inside .code (c :: cs) = inside .code cs := by
  rw [inside, after_code h]
  rfl

/-- In quotes a scan goes on in them, or it ends at a quote. -/
theorem after_inQuotes_cases (h : mode.inQuotes = true) (c : Char) :
    (mode.after false c none).inQuotes = true ∨ (c = '"' ∧ mode.after false c none = .code) := by
  cases mode with
  | string =>
    by_cases hquote : c = '"'
    · exact Or.inr ⟨hquote, by simp [Mode.after, hquote]⟩
    · by_cases hslash : c = '\\' <;> simp [Mode.after, Mode.inQuotes, hquote, hslash]
  | escape => exact Or.inl rfl
  | code | comment => simp [Mode.inQuotes] at h

theorem outside_within (h : mode.inQuotes = true) (hnext : (mode.after false c none).inQuotes = true)
    (cs : List Char) : outside mode (c :: cs) = outside (mode.after false c none) cs := by
  rw [outside, h, hnext]
  rfl

theorem inside_within (h : mode.inQuotes = true) (cs : List Char) :
    inside mode (c :: cs) = c :: inside (mode.after false c none) cs := by
  rw [inside, h]
  rfl

theorem outside_closing (h : mode.after false c none = .code) (cs : List Char) :
    outside mode (c :: cs) = c :: outside .code cs := by
  rw [outside, h, Mode.inQuotes, Bool.and_false]
  rfl

theorem upToQuote_cons (h : c ≠ '"') (cs : List Char) : upToQuote (c :: cs) = c :: upToQuote cs := by
  simp [upToQuote, h]

theorem upToQuote_outside (cs : List Char) : upToQuote (outside .code cs) = upToQuote cs := by
  induction cs with
  | nil => rfl
  | cons c cs ih =>
    by_cases hc : c = '"'
    · subst hc
      rfl
    · rw [outside_code hc, upToQuote_cons hc, upToQuote_cons hc, ih]

theorem upToQuote_inside (h : mode.inQuotes = true) (cs : List Char) :
    upToQuote (inside mode cs) = upToQuote cs := by
  induction cs generalizing mode with
  | nil => rfl
  | cons c cs ih =>
    rw [inside_within h]
    rcases after_inQuotes_cases h c with hnext | ⟨rfl, -⟩
    · by_cases hc : c = '"'
      · subst hc
        rfl
      · rw [upToQuote_cons hc, upToQuote_cons hc, ih hnext]
    · rfl

/-- Other contents of quotes leave what stands outside as it is. -/
theorem outside_filling {filling : List Char} (h : fillsQuotes mode filling = true)
    (rest : List Char) : outside mode (filling ++ '"' :: rest) = '"' :: outside .code rest := by
  induction filling generalizing mode with
  | nil =>
    obtain rfl := mode_of_fillsQuotes_nil h
    rfl
  | cons c cs ih =>
    obtain ⟨hmode, hcs⟩ := fillsQuotes_cons h
    rw [List.cons_append]
    rcases after_inQuotes_cases hmode c with hnext | ⟨-, hnext⟩
    · rw [outside_within hmode hnext, ih hcs]
    · -- No filling goes on after its quotes have ended.
      rw [hnext] at hcs
      cases cs <;> simp [fillsQuotes, Mode.inQuotes] at hcs

theorem Refilled.outside_eq {cs ds : List Char} (h : Refilled cs ds) :
    outside .code ds = outside .code cs := by
  induction h with
  | same => rfl
  | code hc _ ih => rw [outside_code hc, outside_code hc, ih]
  | quotes hbefore hafter _ _ ih =>
    have hopen (rest : List Char) : outside .code ('"' :: rest) = '"' :: outside .string rest := rfl
    rw [hopen, hopen, outside_filling hbefore, outside_filling hafter, ih]

end Split

/-- Whether the mark of an attribute stands somewhere, with something behind it that is looked for. -/
def standsWhere (p : List Char → Bool) : (before : Option Char) → List Char → Bool
  | _, [] => false
  | before, c :: cs => (startsMark before c && p cs) || standsWhere p (some c) cs

theorem standsWhere_quote (p : List Char → Bool) (before : Option Char) (cs : List Char) :
    standsWhere p before ('"' :: cs) = standsWhere p (some '"') cs := rfl

/-- What is looked for behind the mark of an attribute does not reach over a quote. So it is found in a text
if it is found outside quotes or in them. -/
theorem standsWhere_split {p : List Char → Bool} (hp : ∀ cs, p (upToQuote cs) = p cs) (cs : List Char) :
    (∀ before inner, standsWhere p before cs =
      (standsWhere p before (outside .code cs) || standsWhere p inner (inside .code cs))) ∧
    ∀ mode : Mode, mode.inQuotes = true → ∀ before outer, standsWhere p before cs =
      (standsWhere p outer (outside mode cs) || standsWhere p before (inside mode cs)) := by
  induction cs with
  | nil => exact ⟨fun _ _ => rfl, fun _ _ _ _ => rfl⟩
  | cons c cs ih =>
    obtain ⟨ihcode, ihquotes⟩ := ih
    constructor
    · intro before inner
      by_cases hc : c = '"'
      · subst hc
        exact ihquotes .string rfl (some '"') (some '"')
      · have hread : p (outside .code cs) = p cs := by rw [← hp, upToQuote_outside, hp]
        rw [outside_code hc, inside_code hc, standsWhere, standsWhere, hread, ihcode (some c) inner,
          Bool.or_assoc]
    · intro mode hmode before outer
      rw [inside_within hmode]
      rcases after_inQuotes_cases hmode c with hnext | ⟨rfl, hnext⟩
      · have hread : p (inside (mode.after false c none) cs) = p cs := by
          rw [← hp, upToQuote_inside hnext, hp]
        rw [outside_within hmode hnext, standsWhere, standsWhere, hread,
          ihquotes _ hnext (some c) outer, Bool.or_left_comm]
      · rw [outside_closing hnext, hnext, standsWhere_quote, standsWhere_quote, standsWhere_quote]
        exact ihcode (some '"') (some '"')

/-! ## Searches for attributes -/

theorem isPrefixOf?_upToQuote {key : List Char} (hkey : '"' ∉ key) (cs : List Char) :
    key.isPrefixOf? (upToQuote cs) = (key.isPrefixOf? cs).map upToQuote := by
  induction key generalizing cs with
  | nil => rfl
  | cons k key ih =>
    rw [List.mem_cons, not_or] at hkey
    cases cs with
    | nil => rfl
    | cons c cs =>
      by_cases hc : c = '"'
      · have hne : (k == '"') = false := beq_eq_false_iff_ne.mpr (Ne.symm hkey.1)
        rw [hc, List.isPrefixOf?, hne]
        rfl
      · rw [upToQuote_cons hc, List.isPrefixOf?, List.isPrefixOf?, ih hkey.2]
        split <;> rfl

theorem head?_upToQuote (cs : List Char) {p : Char → Bool} (hp : p '"' = false) :
    (upToQuote cs).head?.any p = cs.head?.any p := by
  cases cs with
  | nil => rfl
  | cons c cs =>
    by_cases hc : c = '"'
    · subst hc
      exact hp.symm
    · rw [upToQuote_cons hc]
      rfl

theorem dropWhile_upToQuote (cs : List Char) :
    (upToQuote cs).dropWhile Text.isBlank = upToQuote (cs.dropWhile Text.isBlank) := by
  induction cs with
  | nil => rfl
  | cons c cs ih =>
    by_cases hc : c = '"'
    · subst hc
      rfl
    · rw [upToQuote_cons hc, List.dropWhile_cons, List.dropWhile_cons, ih]
      split
      · rfl
      · rw [upToQuote_cons hc]

/-- There are arguments if a parenthesis comes first, blanks left out. -/
theorem isSome_arguments? (cs : List Char) :
    (arguments? cs).isSome = (cs.dropWhile Text.isBlank).head?.any (· == '(') := by
  unfold arguments?
  split
  · rename_i rest hrest
    rw [hrest]
    cases closing? parentheses ('(' :: rest) <;> rfl
  · rename_i hother
    cases hrest : cs.dropWhile Text.isBlank with
    | nil => rfl
    | cons c rest =>
      have hc : c ≠ '(' := fun heq => hother rest (heq ▸ hrest)
      simp [hc]

namespace Flag

/-- Whether the attribute that sets the flag stands behind its mark. -/
def isAhead (flag : Flag) (cs : List Char) : Bool :=
  (flag.key.isPrefixOf? cs).any fun rest =>
    if flag = default then (arguments? rest).isSome else !rest.head?.any Text.isWord

theorem isAhead_upToQuote (flag : Flag) (cs : List Char) :
    flag.isAhead (upToQuote cs) = flag.isAhead cs := by
  have hkey : '"' ∉ flag.key := by cases flag <;> decide
  rw [isAhead, isAhead, isPrefixOf?_upToQuote hkey, Option.any_map]
  congr 1
  funext rest
  have hword := head?_upToQuote rest (p := Text.isWord) (by decide)
  have harguments : (arguments? (upToQuote rest)).isSome = (arguments? rest).isSome := by
    rw [isSome_arguments?, isSome_arguments?, dropWhile_upToQuote, head?_upToQuote _ (by decide)]
  rw [hword, harguments]

theorem hasAttribute_eq_standsWhere {flag : Flag} (h : flag ≠ default) (before : Option Char)
    (cs : List Char) : hasAttribute flag.key before cs = standsWhere flag.isAhead before cs := by
  induction cs generalizing before with
  | nil => rfl
  | cons c cs ih =>
    rw [hasAttribute, standsWhere, ih, isAhead]
    simp only [if_neg h]
    cases flag.key.isPrefixOf? cs <;> rfl

theorem isSome_attributeArguments? (before : Option Char) (cs : List Char) :
    (attributeArguments? default.key before cs).isSome = standsWhere default.isAhead before cs := by
  induction cs generalizing before with
  | nil => rfl
  | cons c cs ih =>
    rw [attributeArguments?, standsWhere, ← ih, isAhead]
    cases startsMark before c with
    | false => rfl
    | true =>
      cases default.key.isPrefixOf? cs with
      | none => rfl
      | some rest =>
        cases harguments : arguments? rest <;> simp [harguments]

theorem standsIn_eq_standsWhere (flag : Flag) (cs : List Char) :
    flag.standsIn cs = standsWhere flag.isAhead none cs := by
  cases flag with
  | default => exact isSome_attributeArguments? none cs
  | primary => exact hasAttribute_eq_standsWhere (by decide) none cs
  | unique => exact hasAttribute_eq_standsWhere (by decide) none cs

/-- An attribute stands in a text if it stands outside quotes or in them. -/
theorem standsIn_split (flag : Flag) (cs : List Char) :
    flag.standsIn cs = (flag.standsIn (outside .code cs) || flag.standsIn (inside .code cs)) := by
  rw [standsIn_eq_standsWhere, standsIn_eq_standsWhere, standsIn_eq_standsWhere]
  exact (standsWhere_split flag.isAhead_upToQuote cs).1 none none

/-- Whether two fields agree on the attribute: it stands outside quotes, or in quotes of both or of none. -/
def AgreesOn (flag : Flag) (f g : FieldLine) : Prop :=
  flag.standsIn (outside .code f.attributes.toList) = true ∨
    flag.standsIn (inside .code g.attributes.toList) = flag.standsIn (inside .code f.attributes.toList)

/-- Other contents of quotes leave a flag as it is exactly if the fields agree on its attribute. -/
theorem isSet_eq_iff {line line' : List Char} {description : Option String} {f g : FieldLine}
    (hf : FieldLine.ofLine line description = .ok (some f))
    (hg : FieldLine.ofLine line' description = .ok (some g)) (hdiffers : f.DiffersInQuotes g)
    (flag : Flag) : flag.isSet g = flag.isSet f ↔ flag.AgreesOn f g := by
  rw [isSet_ofLine hf, isSet_ofLine hg, standsIn_split, standsIn_split flag f.attributes.toList,
    hdiffers.attributes.outside_eq, AgreesOn]
  cases flag.standsIn (outside .code f.attributes.toList) <;> simp

end Flag

/-- A field is required unless it is optional and no primary key. -/
theorem resolve_required (enums : List RawEnum) (f : FieldLine) :
    (resolve enums f).required = some (!f.isOptional || Flag.primary.isSet f) := by
  unfold resolve
  dsimp only
  split
  · rfl
  · split
    · rfl
    · split <;> rfl

/-- Other contents of quotes on the line of a field. The line still declares a field, and the name and marks
of the field are the same. Its flags, and whether it is required, are the same exactly if the attribute
stands outside quotes, or in quotes of both lines or of none. -/
theorem flags_unchanged_iff {line line' : List Char} (hlines : Refilled line line')
    {description : Option String} {f : FieldLine}
    (hf : FieldLine.ofLine line description = .ok (some f)) (enums : List RawEnum) :
    ∃ g, FieldLine.ofLine line' description = .ok (some g) ∧ f.DiffersInQuotes g ∧
      (∀ flag : Flag, flag.isSet g = flag.isSet f ↔ flag.AgreesOn f g) ∧
      ((resolve enums g).required = (resolve enums f).required ↔
        f.isOptional = false ∨ Flag.primary.AgreesOn f g) := by
  obtain ⟨g, hg, hdiffers⟩ := hlines.ofLine hf
  refine ⟨g, hg, hdiffers, Flag.isSet_eq_iff hf hg hdiffers, ?_⟩
  rw [resolve_required, resolve_required, ← Flag.isSet_eq_iff hf hg hdiffers, hdiffers.isOptional,
    Option.some.injEq]
  cases f.isOptional <;> simp

/-- The line of an optional field with another name in the database. -/
def mappedLine (name : List Char) : List Char :=
  "name String? @map(".toList ++ '"' :: (name ++ ['"', ')'])

/-- The field of such a line, with the given flags. -/
def mappedField (name : List Char) (isPrimary isUnique : Bool) (defaultValue : Option String) :
    FieldLine :=
  { name := "name", typeName := "String", isArray := false, isOptional := true
    attributes := "@map(\"" ++ String.ofList name ++ "\")"
    isPrimary, isUnique, defaultValue, description := none }

theorem refilled_mappedLine {before after : List Char} (hbefore : fillsQuotes .string before = true)
    (hafter : ∀ c ∈ after, c ≠ '"' ∧ c ≠ '\\' ∧ c ≠ '\n') :
    Refilled (mappedLine before) (mappedLine after) :=
  (Refilled.plain hbefore hafter (.same [')'])).append_left (by decide)

theorem ofLine_mappedLine : FieldLine.ofLine (mappedLine "x".toList) none =
    .ok (some (mappedField "x".toList false false none)) := by
  decide +kernel

theorem flags_unchanged_mapped :
    ∃ g, FieldLine.ofLine (mappedLine "a // (b".toList) none = .ok (some g) ∧
      (mappedField "x".toList false false none).DiffersInQuotes g ∧
      ∀ flag : Flag, flag.isSet g = false := by
  have hlines : Refilled (mappedLine "x".toList) (mappedLine "a // (b".toList) :=
    refilled_mappedLine (by decide) (by simp)
  have hread : FieldLine.ofLine (mappedLine "a // (b".toList) none =
      .ok (some (mappedField "a // (b".toList false false none)) := by decide +kernel
  obtain ⟨g, hg, hdiffers, hflags, -⟩ := flags_unchanged_iff hlines ofLine_mappedLine []
  have hfield : g = mappedField "a // (b".toList false false none := by
    rw [hread] at hg
    exact (Option.some.inj (Except.ok.inj hg)).symm
  have hagrees (flag : Flag) : flag.AgreesOn (mappedField "x".toList false false none) g := by
    rw [hfield]
    exact Or.inr (by cases flag <;> decide +kernel)
  refine ⟨g, hg, hdiffers, fun flag => ?_⟩
  rw [(hflags flag).mpr (hagrees flag)]
  cases flag <;> rfl

/-- Contents of quotes that look like attributes set all flags, and an optional field becomes a required
one. -/
theorem flags_changed :
    Refilled (mappedLine "x".toList) (mappedLine "@id @unique @default(1)".toList) ∧
    FieldLine.ofLine (mappedLine "x".toList) none =
      .ok (some (mappedField "x".toList false false none)) ∧
    FieldLine.ofLine (mappedLine "@id @unique @default(1)".toList) none =
      .ok (some (mappedField "@id @unique @default(1)".toList true true (some "1"))) ∧
    (resolve [] (mappedField "x".toList false false none)).required = some false ∧
    (resolve [] (mappedField "@id @unique @default(1)".toList true true (some "1"))).required =
      some true := by
  refine ⟨refilled_mappedLine (by decide) (by simp), ofLine_mappedLine, ?_, ?_, ?_⟩
  · decide +kernel
  · rw [resolve_required]
    rfl
  · rw [resolve_required]
    rfl

end SchemaTypes.Prisma
