import SchemaTypes.Model.Normalization
import SchemaTypes.Prisma.Schema
import SchemaTypes.Proofs.Prisma.Comments

/-!
# Texts in quotes on a field line

The line of a field can hold texts in quotes. Other contents of the quotes leave the field where it is: the
search for a comment, the search for the end of the arguments of a type, and the reading of names and marks
go through them, and what is left over is again the same but for contents. So whether a line declares a
field, the name of the field and its marks for lists and optional values do not depend on what stands in
quotes. What stands there must be ended by the same quote, and must not bring in line feeds, since
attributes are on one line.

Results:
* `stripFrom_quotes`, `closingFrom_quotes`, `trimEnd_quotes`: single texts in quotes.
* `Refilled.stripFrom`, `Refilled.closingFrom`, `Refilled.trimEnd`: lines with several ones.
* `Refilled.content?`, `Refilled.nameAndType?`, `Refilled.withArguments?`, `Refilled.mark`,
  `Refilled.attributes?`: the pieces of a line.
* `Refilled.ofLine`: a line with other contents declares the same field but for contents.
-/

namespace SchemaTypes.Prisma

/-! ## Pieces of a line -/

theorem word?_eq_some_iff {cs word rest : List Char} : word? cs = some (word, rest) ↔
    cs.takeWhile Text.isWord ≠ [] ∧ word = cs.takeWhile Text.isWord ∧
      rest = cs.dropWhile Text.isWord := by
  unfold word?
  cases cs.takeWhile Text.isWord with
  | nil => simp
  | cons c word =>
    rw [Option.some.injEq, Prod.mk.injEq, eq_comm, eq_comm (b := rest)]
    exact (and_iff_right (List.cons_ne_nil c word)).symm

theorem nameAndType?_eq_some_iff {cs name typeName rest : List Char} :
    nameAndType? cs = some (name, typeName, rest) ↔
      ∃ middle, word? cs = some (name, middle) ∧ middle.head?.any Text.isBlank = true ∧
        word? (middle.dropWhile Text.isBlank) = some (typeName, rest) := by
  unfold nameAndType?
  rw [Option.bind_eq_bind, Option.bind_eq_some_iff]
  constructor
  · rintro ⟨⟨first, middle⟩, hname, hrest⟩
    dsimp only at hrest
    split at hrest
    · rename_i hhead
      obtain ⟨⟨second, behind⟩, htype, heq⟩ := Option.bind_eq_some_iff.mp hrest
      cases heq
      exact ⟨middle, hname, hhead, htype⟩
    · cases hrest
  · rintro ⟨middle, hname, hhead, htype⟩
    refine ⟨(name, middle), hname, ?_⟩
    dsimp only
    rw [if_pos hhead, htype]
    rfl

theorem attributes?_eq_some_iff {cs attributes : List Char} :
    attributes? cs = some attributes ↔ (∀ c ∈ cs.head?, Text.isBlank c = true) ∧
      cs.dropWhile Text.isBlank = attributes ∧ '\n' ∉ cs.dropWhile Text.isBlank := by
  cases cs with
  | nil => simp [attributes?]
  | cons c cs =>
    unfold attributes?
    dsimp only
    generalize (c :: cs).dropWhile Text.isBlank = text
    rw [Option.ite_none_right_eq_some, Bool.and_eq_true, Bool.not_eq_true', Option.some.injEq,
      List.contains_eq_mem, decide_eq_false_iff_not, and_assoc, and_comm (a := '\n' ∉ text)]
    simp

theorem content?_eq_some_iff {line text : List Char} : content? line = some text ↔
    Text.trim (stripComment line) = text ∧ text ≠ [] ∧ ['@', '@'].isPrefixOf? text = none := by
  unfold content?
  generalize Text.trim (stripComment line) = content
  have hmarks (cs : List Char) : ['@', '@'].isPrefixOf? ('@' :: '@' :: cs) = some cs := by
    simp [List.isPrefixOf?]
  split
  · constructor
    · intro h
      cases h
    · rintro ⟨rfl, hne, -⟩
      exact absurd rfl hne
  · constructor
    · intro h
      cases h
    · rintro ⟨rfl, -, hnone⟩
      rw [hmarks] at hnone
      cases hnone
  · rename_i hne hother
    rw [Option.some.injEq]
    refine ⟨fun h => ⟨h, h ▸ hne, ?_⟩, And.left⟩
    subst h
    refine Option.eq_none_iff_forall_ne_some.mpr fun rest hrest => ?_
    exact hother rest (List.isPrefixOf?_eq_some_iff_append_eq.mp hrest).symm

theorem ofLine_eq_ok_some_iff {line : List Char} {description : Option String} {f : FieldLine} :
    FieldLine.ofLine line description = .ok (some f) ↔
      ∃ text, content? line = some text ∧ FieldLine.ofContent text description = .ok f := by
  unfold FieldLine.ofLine
  cases content? line with
  | none => simp
  | some text => simp [map_eq_ok_iff]

/-- The blanks at the end of a text, from its front. -/
theorem trimEnd_cons (c : Char) (cs : List Char) : Text.trimEnd (c :: cs) =
    if Text.trimEnd cs = [] ∧ Text.isBlank c then [] else c :: Text.trimEnd cs := by
  unfold Text.trimEnd
  rw [List.reverse_cons, List.dropWhile_append]
  cases cs.reverse.dropWhile Text.isBlank with
  | nil => cases hblank : Text.isBlank c <;> simp [hblank]
  | cons d ds => simp

theorem trimEnd_quotes (filling rest : List Char) : Text.trimEnd ('"' :: (filling ++ '"' :: rest)) =
    '"' :: (filling ++ '"' :: Text.trimEnd rest) := by
  have hclosing : Text.trimEnd ('"' :: rest) = '"' :: Text.trimEnd rest := by
    rw [trimEnd_cons, if_neg fun h => absurd h.2 (by decide)]
  have hfilling : Text.trimEnd (filling ++ '"' :: rest) = filling ++ '"' :: Text.trimEnd rest := by
    induction filling with
    | nil => exact hclosing
    | cons c filling ih => rw [List.cons_append, trimEnd_cons, ih, if_neg (by simp), List.cons_append]
  rw [trimEnd_cons, hfilling, if_neg (by simp)]

/-! ## Other contents -/

/-- Whether a scan that starts in the given mode stays in quotes, and a quote behind the text ends them. -/
def fillsQuotes : Mode → List Char → Bool
  | mode, [] => mode == .string
  | mode, c :: cs => mode.inQuotes && fillsQuotes (mode.after false c none) cs

/-- Whether the second text is the first one with other contents in some of its quotes. The other contents
do not bring in line feeds. From some place on nothing may change, whatever stands there. -/
inductive Refilled : List Char → List Char → Prop
  | same (cs : List Char) : Refilled cs cs
  | code {c : Char} {cs ds : List Char} : c ≠ '"' → Refilled cs ds → Refilled (c :: cs) (c :: ds)
  | quotes {before after cs ds : List Char} : fillsQuotes .string before = true →
      fillsQuotes .string after = true → ('\n' ∈ after → '\n' ∈ before) → Refilled cs ds →
      Refilled ('"' :: (before ++ '"' :: cs)) ('"' :: (after ++ '"' :: ds))

/-- In quotes neither comments nor the next character count. -/
theorem after_inQuotes {mode : Mode} (h : mode.inQuotes = true) (comments : Bool) (c : Char)
    (ahead : Option Char) : mode.after comments c ahead = mode.after false c none := by
  cases mode with
  | string | escape => rfl
  | code | comment => simp [Mode.inQuotes] at h

theorem after_code {c : Char} (h : c ≠ '"') (ahead : Option Char) :
    Mode.code.after false c ahead = .code := by
  simp [Mode.after, h]

theorem ne_code_of_inQuotes {mode : Mode} (h : mode.inQuotes = true) : mode ≠ .code := by
  rintro rfl
  simp [Mode.inQuotes] at h

section Fillings

variable {mode : Mode} {filling : List Char}

theorem mode_of_fillsQuotes_nil (h : fillsQuotes mode [] = true) : mode = .string := by
  simpa [fillsQuotes] using h

theorem fillsQuotes_cons {c : Char} {cs : List Char} (h : fillsQuotes mode (c :: cs) = true) :
    mode.inQuotes = true ∧ fillsQuotes (mode.after false c none) cs = true := by
  simpa [fillsQuotes] using h

theorem stripFrom_filling (h : fillsQuotes mode filling = true) (rest : List Char) :
    stripFrom mode (filling ++ '"' :: rest) = filling ++ '"' :: stripFrom .code rest := by
  induction filling generalizing mode with
  | nil =>
    obtain rfl := mode_of_fillsQuotes_nil h
    rfl
  | cons c cs ih =>
    obtain ⟨hmode, hcs⟩ := fillsQuotes_cons h
    rw [List.cons_append, stripFrom, if_neg fun hcode => ne_code_of_inQuotes hmode hcode.1,
      after_inQuotes hmode, ih hcs, List.cons_append]

theorem closingFrom_filling (h : fillsQuotes mode filling = true) (b : Brackets) (depth : Int)
    (rest : List Char) : closingFrom b mode depth (filling ++ '"' :: rest) =
      (closingFrom b .code depth rest).map (· + (filling.length + 1)) := by
  induction filling generalizing mode with
  | nil =>
    obtain rfl := mode_of_fillsQuotes_nil h
    rw [List.nil_append, closingFrom_cons]
    rfl
  | cons c cs ih =>
    obtain ⟨hmode, hcs⟩ := fillsQuotes_cons h
    have hcode := ne_code_of_inQuotes hmode
    rw [List.cons_append, closingFrom_cons, if_neg fun hends => hcode hends.1, after_inQuotes hmode,
      if_neg hcode, ih hcs, Option.map_map]
    rfl

theorem stripFrom_quotes (h : fillsQuotes .string filling = true) (rest : List Char) :
    stripFrom .code ('"' :: (filling ++ '"' :: rest)) =
      '"' :: (filling ++ '"' :: stripFrom .code rest) :=
  congrArg ('"' :: ·) (stripFrom_filling h rest)

theorem closingFrom_quotes (h : fillsQuotes .string filling = true) (depth : Int) (rest : List Char) :
    closingFrom parentheses .code depth ('"' :: (filling ++ '"' :: rest)) =
      (closingFrom parentheses .code depth rest).map (· + (filling.length + 2)) := by
  have hstart : closingFrom parentheses .code depth ('"' :: (filling ++ '"' :: rest)) =
      (closingFrom parentheses .string depth (filling ++ '"' :: rest)).map (· + 1) := by
    rw [closingFrom_cons, if_neg fun hends => absurd hends.2.1 (by decide)]
    rfl
  rw [hstart, closingFrom_filling h, Option.map_map]
  rfl

theorem take_quotes (filling rest : List Char) (n : Nat) :
    ('"' :: (filling ++ '"' :: rest)).take (n + (filling.length + 2) + 1) =
      '"' :: (filling ++ '"' :: rest.take (n + 1)) := by
  have hlength : n + (filling.length + 2) - filling.length = n + 1 + 1 := by omega
  rw [List.take_succ_cons, List.take_append, List.take_of_length_le (by omega), hlength,
    List.take_succ_cons]

theorem drop_quotes (filling rest : List Char) (n : Nat) :
    ('"' :: (filling ++ '"' :: rest)).drop (n + (filling.length + 2) + 1) = rest.drop (n + 1) := by
  have hlength : n + (filling.length + 2) - filling.length = n + 1 + 1 := by omega
  rw [List.drop_succ_cons, List.drop_append, List.drop_of_length_le (by omega), List.nil_append,
    hlength, List.drop_succ_cons]

end Fillings

theorem fillsQuotes_plain {cs : List Char} (h : ∀ c ∈ cs, c ≠ '"' ∧ c ≠ '\\') :
    fillsQuotes .string cs = true := by
  induction cs with
  | nil => rfl
  | cons c cs ih =>
    rw [List.forall_mem_cons] at h
    have hnext : Mode.string.after false c none = .string := by simp [Mode.after, h.1.1, h.1.2]
    rw [fillsQuotes, hnext, ih h.2]
    rfl

namespace Refilled

variable {cs ds : List Char}

/-- Contents can be replaced by any text without quotes, backslashes and line feeds. -/
theorem plain {before after : List Char} (hbefore : fillsQuotes .string before = true)
    (hafter : ∀ c ∈ after, c ≠ '"' ∧ c ≠ '\\' ∧ c ≠ '\n') (h : Refilled cs ds) :
    Refilled ('"' :: (before ++ '"' :: cs)) ('"' :: (after ++ '"' :: ds)) :=
  .quotes hbefore (fillsQuotes_plain fun c hc => ⟨(hafter c hc).1, (hafter c hc).2.1⟩)
    (fun hfeed => absurd rfl (hafter '\n' hfeed).2.2) h

/-- The first character does not change: it is no content. -/
theorem head?_eq (h : Refilled cs ds) : cs.head? = ds.head? := by
  cases h <;> rfl

theorem eq_nil_iff (h : Refilled cs ds) : cs = [] ↔ ds = [] := by
  rw [← List.head?_eq_none_iff, h.head?_eq, List.head?_eq_none_iff]

theorem no_feed (h : Refilled cs ds) (hcs : '\n' ∉ cs) : '\n' ∉ ds := by
  induction h with
  | same => exact hcs
  | code _ _ ih =>
    rw [List.mem_cons, not_or] at hcs ⊢
    exact ⟨hcs.1, ih hcs.2⟩
  | quotes _ _ hfeed _ ih =>
    simp only [List.mem_cons, List.mem_append, not_or] at hcs ⊢
    exact ⟨hcs.1, fun hafter => hcs.2.1 (hfeed hafter), hcs.2.2.1, ih hcs.2.2.2⟩

/-- The search for a comment goes through quotes. -/
theorem stripFrom (h : Refilled cs ds) : Refilled (stripFrom .code cs) (stripFrom .code ds) := by
  induction h with
  | same => exact .same _
  | code hc htail ih =>
    rw [Prisma.stripFrom, Prisma.stripFrom, ← htail.head?_eq, after_code hc]
    split
    · exact .same []
    · exact .code hc ih
  | quotes hbefore hafter hfeed _ ih =>
    rw [stripFrom_quotes hbefore, stripFrom_quotes hafter]
    exact .quotes hbefore hafter hfeed ih

/-! ### Words and blanks -/

section Words

variable {p : Char → Bool}

theorem takeWhile_eq (h : Refilled cs ds) (hquote : p '"' = false) :
    cs.takeWhile p = ds.takeWhile p := by
  induction h with
  | same => rfl
  | code _ _ ih => rw [List.takeWhile_cons, List.takeWhile_cons, ih]
  | quotes => simp [hquote]

theorem dropWhile (h : Refilled cs ds) (hquote : p '"' = false) :
    Refilled (cs.dropWhile p) (ds.dropWhile p) := by
  induction h with
  | same => exact .same _
  | @code c cs ds hc htail ih =>
    rw [List.dropWhile_cons, List.dropWhile_cons]
    split
    · exact ih
    · exact .code hc htail
  | quotes hbefore hafter hfeed htail =>
    rw [List.dropWhile_cons_of_neg (by simp [hquote]), List.dropWhile_cons_of_neg (by simp [hquote])]
    exact .quotes hbefore hafter hfeed htail

end Words

/-- A text without quotes at the front. -/
theorem append_left (h : Refilled cs ds) {front : List Char} (hfront : '"' ∉ front) :
    Refilled (front ++ cs) (front ++ ds) := by
  induction front with
  | nil => exact h
  | cons c front ih =>
    rw [List.mem_cons, not_or] at hfront
    exact .code (Ne.symm hfront.1) (ih hfront.2)

/-- A mark at the front, and the text behind it. -/
theorem isPrefixOf? (h : Refilled cs ds) {m : List Char} (hm : '"' ∉ m) :
    Option.Rel Refilled (m.isPrefixOf? cs) (m.isPrefixOf? ds) := by
  induction m generalizing cs ds with
  | nil => exact .some h
  | cons c m ih =>
    rw [List.mem_cons, not_or] at hm
    cases h with
    | same => cases (c :: m).isPrefixOf? cs with
      | none => exact .none
      | some rest => exact .some (.same rest)
    | code _ htail =>
      rw [List.isPrefixOf?, List.isPrefixOf?]
      split
      · exact ih htail hm.2
      · exact .none
    | quotes =>
      have hne : (c == '"') = false := beq_eq_false_iff_ne.mpr (Ne.symm hm.1)
      rw [List.isPrefixOf?, List.isPrefixOf?, hne]
      exact .none

theorem mark (h : Refilled cs ds) {m : List Char} (hm : '"' ∉ m) :
    (Prisma.mark m ds).1 = (Prisma.mark m cs).1 ∧
      Refilled (Prisma.mark m cs).2 (Prisma.mark m ds).2 := by
  have hrel := h.isPrefixOf? hm
  unfold Prisma.mark
  generalize m.isPrefixOf? cs = first at hrel
  generalize m.isPrefixOf? ds = second at hrel
  cases hrel with
  | none => exact ⟨rfl, h⟩
  | some hrest => exact ⟨rfl, hrest⟩

/-! ### Arguments -/

/-- The search for a closing parenthesis goes through quotes. -/
theorem closingFrom (h : Refilled cs ds) {depth : Int} {n : Nat}
    (hn : closingFrom parentheses .code depth cs = some n) :
    ∃ k, Prisma.closingFrom parentheses .code depth ds = some k ∧
      Refilled (cs.take (n + 1)) (ds.take (k + 1)) ∧ Refilled (cs.drop (n + 1)) (ds.drop (k + 1)) := by
  induction h generalizing depth n with
  | same => exact ⟨n, hn, .same _, .same _⟩
  | @code c _ _ hc htail ih =>
    have hnext (ahead : Option Char) : Mode.code.after parentheses.comments c ahead = .code :=
      after_code hc ahead
    rw [closingFrom_cons, hnext, if_pos rfl] at hn
    rw [closingFrom_cons, hnext, if_pos rfl]
    split at hn
    · rename_i hends
      rw [if_pos hends]
      obtain rfl := Option.some.inj hn
      exact ⟨0, rfl, .same _, htail⟩
    · rename_i hgoes
      obtain ⟨inner, hinner, rfl⟩ := Option.map_eq_some_iff.mp hn
      obtain ⟨k, hk, htake, hdrop⟩ := ih hinner
      rw [if_neg hgoes, hk]
      exact ⟨k + 1, rfl, .code hc htake, hdrop⟩
  | quotes hbefore hafter hfeed _ ih =>
    rw [closingFrom_quotes hbefore] at hn
    obtain ⟨inner, hinner, rfl⟩ := Option.map_eq_some_iff.mp hn
    obtain ⟨k, hk, htake, hdrop⟩ := ih hinner
    refine ⟨_, by rw [closingFrom_quotes hafter, hk]; rfl, ?_, ?_⟩
    · rw [take_quotes, take_quotes]
      exact .quotes hbefore hafter hfeed htake
    · rw [drop_quotes, drop_quotes]
      exact hdrop

theorem withArguments? (h : Refilled cs ds) {typeName typeText rest : List Char}
    (htype : '"' ∉ typeName) (hread : withArguments? typeName cs = some (typeText, rest)) :
    ∃ typeText' rest', Prisma.withArguments? typeName ds = some (typeText', rest') ∧
      Refilled typeText typeText' ∧ Refilled rest rest' := by
  have hhead := h.head?_eq
  unfold Prisma.withArguments? at hread
  split at hread
  · rename_i inner
    obtain ⟨n, hn, hsplit⟩ := Option.map_eq_some_iff.mp hread
    obtain ⟨rfl, rfl⟩ := Prod.mk.inj hsplit
    obtain ⟨k, hk, htake, hdrop⟩ := h.closingFrom hn
    obtain ⟨inner', rfl⟩ := List.head?_eq_some_iff.mp hhead.symm
    refine ⟨_, _, ?_, htake.append_left htype, hdrop⟩
    rw [Prisma.withArguments?, closing?, hk]
    rfl
  · rename_i hopen
    obtain ⟨rfl, rfl⟩ := Prod.mk.inj (Option.some.inj hread)
    refine ⟨typeName, ds, ?_, .same _, h⟩
    unfold Prisma.withArguments?
    split
    · rename_i inner
      obtain ⟨inner', rfl⟩ := List.head?_eq_some_iff.mp hhead
      exact absurd rfl (hopen inner')
    · rfl

/-! ### Names and attributes -/

theorem word? (h : Refilled cs ds) {word rest : List Char} (hread : word? cs = some (word, rest)) :
    ∃ rest', Prisma.word? ds = some (word, rest') ∧ Refilled rest rest' := by
  have hquote : Text.isWord '"' = false := by decide
  rw [word?_eq_some_iff] at hread
  obtain ⟨hne, rfl, rfl⟩ := hread
  refine ⟨ds.dropWhile Text.isWord, ?_, h.dropWhile hquote⟩
  rw [h.takeWhile_eq hquote] at hne ⊢
  exact word?_eq_some_iff.mpr ⟨hne, rfl, rfl⟩

theorem nameAndType? (h : Refilled cs ds) {name typeName rest : List Char}
    (hread : nameAndType? cs = some (name, typeName, rest)) :
    ∃ rest', Prisma.nameAndType? ds = some (name, typeName, rest') ∧ Refilled rest rest' ∧
      '"' ∉ typeName := by
  have hblank : Text.isBlank '"' = false := by decide
  rw [nameAndType?_eq_some_iff] at hread
  obtain ⟨middle, hname, hhead, htype⟩ := hread
  obtain ⟨middle', hname', hmiddle⟩ := h.word? hname
  obtain ⟨rest', htype', hrest⟩ := (hmiddle.dropWhile hblank).word? htype
  refine ⟨rest', nameAndType?_eq_some_iff.mpr ⟨middle', hname', hmiddle.head?_eq ▸ hhead, htype'⟩,
    hrest, fun hquote => ?_⟩
  obtain ⟨-, rfl, -⟩ := word?_eq_some_iff.mp htype
  have hword := List.all_eq_true.mp List.all_takeWhile '"' hquote
  exact absurd hword (by decide)

theorem attributes? (h : Refilled cs ds) {attributes : List Char}
    (hread : attributes? cs = some attributes) :
    ∃ attributes', Prisma.attributes? ds = some attributes' ∧ Refilled attributes attributes' := by
  have hblank : Text.isBlank '"' = false := by decide
  have hrest := h.dropWhile hblank
  obtain ⟨hfirst, rfl, hfeed⟩ := attributes?_eq_some_iff.mp hread
  exact ⟨_, attributes?_eq_some_iff.mpr ⟨h.head?_eq ▸ hfirst, rfl, hrest.no_feed hfeed⟩, hrest⟩

/-! ### Lines -/

theorem trimEnd (h : Refilled cs ds) : Refilled (Text.trimEnd cs) (Text.trimEnd ds) := by
  induction h with
  | same => exact .same _
  | @code c cs ds hc _ ih =>
    rw [trimEnd_cons, trimEnd_cons]
    simp only [ih.eq_nil_iff]
    split
    · exact .same []
    · exact .code hc ih
  | quotes hbefore hafter hfeed _ ih =>
    rw [trimEnd_quotes, trimEnd_quotes]
    exact .quotes hbefore hafter hfeed ih

theorem content? (h : Refilled cs ds) {text : List Char} (hread : content? cs = some text) :
    ∃ text', Prisma.content? ds = some text' ∧ Refilled text text' := by
  have hblank : Text.isBlank '"' = false := by decide
  have htrim : Refilled (Text.trim (stripComment cs)) (Text.trim (stripComment ds)) :=
    (h.stripFrom.dropWhile hblank).trimEnd
  rw [content?_eq_some_iff] at hread
  obtain ⟨rfl, hne, hmarks⟩ := hread
  have hrel := htrim.isPrefixOf? (m := ['@', '@']) (by decide)
  rw [hmarks] at hrel
  refine ⟨_, content?_eq_some_iff.mpr ⟨rfl, mt htrim.eq_nil_iff.mpr hne, ?_⟩, htrim⟩
  generalize ['@', '@'].isPrefixOf? (Text.trim (stripComment ds)) = marks at hrel ⊢
  cases hrel
  rfl

end Refilled

/-! ## Fields -/

/-- A line is read piece by piece. -/
theorem ofContent_eq_ok_iff {line : List Char} {description : Option String} {f : FieldLine} :
    FieldLine.ofContent line description = .ok f ↔ ∃ name typeName rest typeText behind attributes,
      nameAndType? line = some (name, typeName, rest) ∧
      withArguments? typeName rest = some (typeText, behind) ∧
      attributes? (mark ['?'] (mark ['[', ']'] behind).2).2 = some attributes ∧
      f = { name := String.ofList name
            typeName := String.ofList typeText
            isArray := (mark ['[', ']'] behind).1
            isOptional := (mark ['?'] (mark ['[', ']'] behind).2).1
            attributes := String.ofList attributes
            isPrimary := hasAttribute ['i', 'd'] none attributes
            isUnique := hasAttribute "unique".toList none attributes
            defaultValue :=
              (attributeArguments? "default".toList none attributes).map String.ofList
            description } := by
  unfold FieldLine.ofContent
  constructor
  · intro h
    dsimp only at h
    split at h
    · cases h
    rename_i name typeName rest hname
    split at h
    · cases h
    rename_i typeText behind htype
    split at h
    · cases h
    rename_i attributes hattributes
    exact ⟨name, typeName, rest, typeText, behind, attributes, hname, htype, hattributes,
      (Except.ok.inj h).symm⟩
  · rintro ⟨name, typeName, rest, typeText, behind, attributes, hname, htype, hattributes, rfl⟩
    simp only [hname, htype, hattributes]

/-- Whether the second field is the first one but for what stands in quotes in its type and attributes. -/
structure FieldLine.DiffersInQuotes (f g : FieldLine) : Prop where
  name : g.name = f.name
  isArray : g.isArray = f.isArray
  isOptional : g.isOptional = f.isOptional
  description : g.description = f.description
  typeName : Refilled f.typeName.toList g.typeName.toList
  attributes : Refilled f.attributes.toList g.attributes.toList

theorem Refilled.ofContent {cs ds : List Char} (h : Refilled cs ds) {description : Option String}
    {f : FieldLine} (hread : FieldLine.ofContent cs description = .ok f) :
    ∃ g, FieldLine.ofContent ds description = .ok g ∧ f.DiffersInQuotes g := by
  obtain ⟨name, typeName, rest, typeText, behind, attributes, hname, htype, hattributes, rfl⟩ :=
    ofContent_eq_ok_iff.mp hread
  obtain ⟨rest', hname', hrest, hquote⟩ := h.nameAndType? hname
  obtain ⟨typeText', behind', htype', htext, hbehind⟩ := hrest.withArguments? hquote htype
  obtain ⟨harray, hafterArray⟩ := hbehind.mark (m := ['[', ']']) (by decide)
  obtain ⟨hoptional, hafterOptional⟩ := hafterArray.mark (m := ['?']) (by decide)
  obtain ⟨attributes', hattributes', htexts⟩ := hafterOptional.attributes? hattributes
  refine ⟨_, ofContent_eq_ok_iff.mpr ⟨name, typeName, rest', typeText', behind', attributes', hname',
    htype', hattributes', rfl⟩, rfl, harray, hoptional, rfl, ?_, ?_⟩
  · simpa using htext
  · simpa using htexts

/-- A line with other contents of quotes declares the same field but for such contents. -/
theorem Refilled.ofLine {line line' : List Char} (h : Refilled line line') {description : Option String}
    {f : FieldLine} (hread : FieldLine.ofLine line description = .ok (some f)) :
    ∃ g, FieldLine.ofLine line' description = .ok (some g) ∧ f.DiffersInQuotes g := by
  obtain ⟨text, htext, hread⟩ := ofLine_eq_ok_some_iff.mp hread
  obtain ⟨text', htext', hsame⟩ := h.content? htext
  obtain ⟨g, hg, hdiffers⟩ := hsame.ofContent hread
  exact ⟨g, ofLine_eq_ok_some_iff.mpr ⟨text', htext', hg⟩, hdiffers⟩

end SchemaTypes.Prisma
