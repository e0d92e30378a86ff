import SchemaTypes.Proofs.Prisma.Joining

/-!
# Groups

A group is an opening bracket, items and a closing bracket. An item is a character, a string, a comment or
a group; brackets in strings and comments are none. The search for a bracket that closes another one knows
nothing of groups: it counts, and it remembers whether it is in a string or in a comment. It finds a
bracket exactly if a group ends there.

What the search has still to read is a language of its own for each place where it can be: the end of the
string or the comment in which it is, and then items and a closing bracket for each bracket that is open.
One character takes one of these languages to another one as it takes the search from one place to another
(`finishes_cons`), and the rest is induction over the text.

Results:
* `finishes_cons`: one character of what the search has still to read.
* `closingFrom_eq_some_iff`: where the search ends, from every place.
* `closingAt?_group`: brackets and parentheses are matched exactly in groups.
-/

namespace SchemaTypes.Prisma

/-! ## The grammar -/

/-- Whether the text ends a string: characters, each of which may be escaped by a backslash, up to the first
quote that is not escaped. -/
inductive EndsString : List Char → Prop
  | quote : EndsString ['"']
  | char {c : Char} {cs : List Char} (hquote : c ≠ '"') (hslash : c ≠ '\\') (h : EndsString cs) :
    EndsString (c :: cs)
  | escape (c : Char) {cs : List Char} (h : EndsString cs) : EndsString ('\\' :: c :: cs)

/-- Whether the text is a sequence of items. A character is no quote, no bracket and does not start a
comment; a comment reaches to the next line feed, which is no part of it. Where brackets are matched inside
a line, slashes start no comment. -/
inductive Items (b : Brackets) : List Char → Prop
  | nil : Items b []
  | char {c : Char} {cs : List Char} (hquote : c ≠ '"') (hopening : c ≠ b.opening)
    (hclosing : c ≠ b.closing)
    (hcomment : ¬(b.comments = true ∧ c = '/' ∧ cs.head? = some '/')) (h : Items b cs) :
    Items b (c :: cs)
  | string {tail cs : List Char} (htail : EndsString tail) (h : Items b cs) :
    Items b ('"' :: (tail ++ cs))
  | comment {text cs : List Char} (hcomments : b.comments = true) (htext : '\n' ∉ text)
    (h : Items b ('\n' :: cs)) : Items b ('/' :: '/' :: (text ++ '\n' :: cs))
  | group {inner cs : List Char} (hinner : Items b inner) (h : Items b cs) :
    Items b (b.opening :: (inner ++ b.closing :: cs))

/-- Whether the text is a group. -/
def IsGroup (b : Brackets) (cs : List Char) : Prop :=
  ∃ inner, Items b inner ∧ cs = b.opening :: (inner ++ [b.closing])

/-- Whether the two brackets are different, and none of the characters that start or end a string or a
comment. -/
structure Brackets.Distinct (b : Brackets) : Prop where
  opening_ne : b.opening ≠ b.closing
  opening_mark : ∀ c ∈ ['"', '/', '\n'], b.opening ≠ c
  closing_mark : ∀ c ∈ ['"', '/', '\n'], b.closing ≠ c

theorem braces_distinct : braces.Distinct :=
  ⟨by decide, Text.forall_mem_of_all (by decide), Text.forall_mem_of_all (by decide)⟩

theorem parentheses_distinct : parentheses.Distinct :=
  ⟨by decide, Text.forall_mem_of_all (by decide), Text.forall_mem_of_all (by decide)⟩

/-! ## What is still to be read -/

section Search

variable (b : Brackets)

/-- Whether the text closes so many groups: items and a closing bracket for each of them. -/
def ClosesGroups : (depth : Nat) → List Char → Prop
  | 0, cs => cs = []
  | depth + 1, cs => ∃ inner rest, Items b inner ∧ ClosesGroups depth rest ∧
    cs = inner ++ b.closing :: rest

/-- Whether the text closes so many groups, after the string or the comment in which a search is. -/
def Finishes (depth : Nat) : Mode → List Char → Prop
  | .code, cs => ClosesGroups b depth cs
  | .string, cs => ∃ tail rest, EndsString tail ∧ ClosesGroups b depth rest ∧ cs = tail ++ rest
  | .escape, cs => ∃ c tail rest, EndsString tail ∧ ClosesGroups b depth rest ∧ cs = c :: (tail ++ rest)
  | .comment, cs => ∃ text rest, '\n' ∉ text ∧ ClosesGroups b depth ('\n' :: rest) ∧
    cs = text ++ '\n' :: rest

@[simp] theorem finishes_code (depth : Nat) (cs : List Char) :
    Finishes b depth .code cs ↔ ClosesGroups b depth cs := Iff.rfl

/-- Whether the character is an item by itself in front of the text. -/
def IsCharItem (c : Char) (cs : List Char) : Prop :=
  c ≠ '"' ∧ c ≠ b.opening ∧ c ≠ b.closing ∧ ¬(b.comments = true ∧ c = '/' ∧ cs.head? = some '/')

variable {b} {depth : Nat} {c : Char} {cs : List Char}

/-- What the first character of some items starts. -/
theorem Items.cons_cases (h : Items b (c :: cs)) :
    (IsCharItem b c cs ∧ Items b cs) ∨
    (c = '"' ∧ ∃ tail rest, EndsString tail ∧ Items b rest ∧ cs = tail ++ rest) ∨
    (b.comments = true ∧ c = '/' ∧ ∃ text rest, '\n' ∉ text ∧ Items b ('\n' :: rest) ∧
      cs = '/' :: (text ++ '\n' :: rest)) ∨
    (c = b.opening ∧ ∃ inner rest, Items b inner ∧ Items b rest ∧ cs = inner ++ b.closing :: rest) := by
  cases h with
  | char hquote hopening hclosing hcomment h =>
    exact .inl ⟨⟨hquote, hopening, hclosing, hcomment⟩, h⟩
  | string htail h => exact .inr (.inl ⟨rfl, _, _, htail, h, rfl⟩)
  | comment hcomments htext h => exact .inr (.inr (.inl ⟨hcomments, rfl, _, _, htext, h, rfl⟩))
  | group hinner h => exact .inr (.inr (.inr ⟨rfl, _, _, hinner, h, rfl⟩))

/-- A text that closes a group has the items of the group and its bracket in front. -/
theorem ClosesGroups.append {inner rest : List Char} (hinner : Items b inner)
    (hrest : ClosesGroups b depth rest) : ClosesGroups b (depth + 1) (inner ++ b.closing :: rest) :=
  ⟨inner, rest, hinner, hrest, rfl⟩

/-- A text that closes groups may have a comment before it. The line feed that ends the comment belongs to the
items. -/
theorem ClosesGroups.comment (hb : b.Distinct) (hcomments : b.comments = true) {text rest : List Char}
    (htext : '\n' ∉ text) (h : ClosesGroups b (depth + 1) ('\n' :: rest)) :
    ClosesGroups b (depth + 1) ('/' :: '/' :: (text ++ '\n' :: rest)) := by
  obtain ⟨inner, more, hinner, hmore, hsplit⟩ := h
  cases inner with
  | nil => exact absurd (List.cons.inj hsplit).1.symm (hb.closing_mark _ (by decide))
  | cons c inner =>
    obtain ⟨rfl, rfl⟩ := List.cons.inj hsplit
    simpa using ClosesGroups.append (.comment hcomments htext hinner) hmore

/-- What the first character of a text that closes groups starts. -/
theorem closesGroups_cons (hb : b.Distinct) : ClosesGroups b (depth + 1) (c :: cs) ↔
    (c = b.closing ∧ ClosesGroups b depth cs) ∨
    (IsCharItem b c cs ∧ ClosesGroups b (depth + 1) cs) ∨
    (c = '"' ∧ Finishes b (depth + 1) .string cs) ∨
    ((b.comments = true ∧ c = '/' ∧ cs.head? = some '/') ∧ Finishes b (depth + 1) .comment cs) ∨
    (c = b.opening ∧ ClosesGroups b (depth + 2) cs) := by
  have hslash : b.closing ≠ '/' := hb.closing_mark _ (by decide)
  constructor
  · rintro ⟨inner, rest, hinner, hrest, htext⟩
    cases inner with
    | nil =>
      obtain ⟨rfl, rfl⟩ := List.cons.inj htext
      exact .inl ⟨rfl, hrest⟩
    | cons d inner =>
      obtain ⟨rfl, rfl⟩ := List.cons.inj htext
      rcases hinner.cons_cases with ⟨⟨hquote, hopening, hclosing, hcomment⟩, hinner⟩ |
        ⟨rfl, tail, more, htail, hmore, rfl⟩ | ⟨hcomments, rfl, text, more, hfeed, hmore, rfl⟩ |
        ⟨rfl, first, more, hfirst, hmore, rfl⟩
      · refine .inr (.inl ⟨⟨hquote, hopening, hclosing, ?_⟩, .append hinner hrest⟩)
        -- The bracket behind the last item is no slash.
        cases inner with
        | nil => simp [hslash]
        | cons e inner => exact hcomment
      · exact .inr (.inr (.inl ⟨rfl, tail, _, htail, .append hmore hrest, by simp⟩))
      · refine .inr (.inr (.inr (.inl ⟨⟨hcomments, rfl, rfl⟩, '/' :: text, more ++ b.closing :: rest,
          ?_, .append hmore hrest, by simp⟩)))
        simpa using hfeed
      · exact .inr (.inr (.inr (.inr ⟨rfl, first, _, hfirst, .append hmore hrest, by simp⟩)))
  · rintro (⟨rfl, hrest⟩ | ⟨⟨hquote, hopening, hclosing, hcomment⟩, inner, rest, hinner, hrest, rfl⟩ |
      ⟨rfl, tail, _, htail, ⟨inner, rest, hinner, hrest, rfl⟩, rfl⟩ |
      ⟨⟨hcomments, rfl, hhead⟩, text, rest, hfeed, hrest, rfl⟩ |
      ⟨rfl, first, _, hfirst, ⟨inner, rest, hinner, hrest, rfl⟩, rfl⟩)
    · exact .append .nil hrest
    · refine .append (.char hquote hopening hclosing ?_ hinner) hrest
      cases inner with
      | nil => simp
      | cons d inner => exact hcomment
    · simpa using ClosesGroups.append (.string htail hinner) hrest
    · cases text with
      | nil => simp at hhead
      | cons d text =>
        obtain rfl : d = '/' := by simpa using hhead
        exact .comment hb hcomments (fun hmem => hfeed (List.mem_cons_of_mem _ hmem)) hrest
    · simpa using ClosesGroups.append (.group hfirst hinner) hrest

/-- A line feed is an item by itself. -/
theorem closesGroups_feed (hb : b.Distinct) :
    ClosesGroups b (depth + 1) ('\n' :: cs) ↔ ClosesGroups b (depth + 1) cs := by
  have hopening : '\n' ≠ b.opening := (hb.opening_mark _ (by decide)).symm
  have hclosing : '\n' ≠ b.closing := (hb.closing_mark _ (by decide)).symm
  simp [closesGroups_cons hb, IsCharItem, hopening, hclosing]

theorem not_finishes_nil (mode : Mode) : ¬Finishes b (depth + 1) mode [] := by
  cases mode with
  | code =>
    rintro ⟨inner, rest, -, -, htext⟩
    simp at htext
  | string =>
    rintro ⟨tail, rest, htail, -, htext⟩
    obtain ⟨rfl, -⟩ := List.append_eq_nil_iff.mp htext.symm
    cases htail
  | escape =>
    rintro ⟨d, tail, rest, -, -, htext⟩
    simp at htext
  | comment =>
    rintro ⟨text, rest, -, -, htext⟩
    simp at htext

theorem finishes_string_cons : Finishes b depth .string (c :: cs) ↔
    Finishes b depth (Mode.string.after b.comments c cs.head?) cs := by
  constructor
  · rintro ⟨tail, rest, htail, hrest, htext⟩
    cases htail with
    | quote =>
      obtain ⟨rfl, rfl⟩ := List.cons.inj htext
      exact hrest
    | char hquote hslash htail =>
      obtain ⟨rfl, rfl⟩ := List.cons.inj htext
      simpa [Mode.after, hquote, hslash] using ⟨_, rest, htail, hrest, rfl⟩
    | escape d htail =>
      obtain ⟨rfl, rfl⟩ := List.cons.inj htext
      exact ⟨d, _, rest, htail, hrest, rfl⟩
  · intro h
    simp only [Mode.after] at h
    split at h
    · rename_i hquote
      subst hquote
      exact ⟨['"'], cs, .quote, h, rfl⟩
    split at h
    · rename_i hslash
      obtain ⟨d, tail, rest, htail, hrest, rfl⟩ := h
      subst hslash
      exact ⟨'\\' :: d :: tail, rest, .escape d htail, hrest, rfl⟩
    · rename_i hquote hslash
      obtain ⟨tail, rest, htail, hrest, rfl⟩ := h
      exact ⟨c :: tail, rest, .char hquote hslash htail, hrest, rfl⟩

theorem finishes_comment_cons (hb : b.Distinct) : Finishes b (depth + 1) .comment (c :: cs) ↔
    Finishes b (depth + 1) (Mode.comment.after b.comments c cs.head?) cs := by
  by_cases hfeed : c = '\n'
  · subst hfeed
    constructor
    · rintro ⟨text, rest, hline, hrest, htext⟩
      cases text with
      | nil =>
        obtain rfl := (List.cons.inj htext).2
        exact (closesGroups_feed hb).mp hrest
      | cons d text => exact absurd (by simp [← (List.cons.inj htext).1]) hline
    · intro h
      exact ⟨[], cs, by simp, (closesGroups_feed hb).mpr h, rfl⟩
  · have hafter : Mode.comment.after b.comments c cs.head? = .comment := by simp [Mode.after, hfeed]
    rw [hafter]
    constructor
    · rintro ⟨text, rest, hline, hrest, htext⟩
      cases text with
      | nil => exact absurd (List.cons.inj htext).1 hfeed
      | cons d text =>
        obtain ⟨rfl, rfl⟩ := List.cons.inj htext
        exact ⟨text, rest, fun hmem => hline (List.mem_cons_of_mem _ hmem), hrest, rfl⟩
    · rintro ⟨text, rest, hline, hrest, rfl⟩
      exact ⟨c :: text, rest, by simp [Ne.symm hfeed, hline], hrest, rfl⟩

/-- One character of what a search has still to read. -/
theorem finishes_cons (hb : b.Distinct) (mode : Mode) : Finishes b (depth + 1) mode (c :: cs) ↔
    Finishes b (if mode = .code then b.depthAfter (depth + 1 : Nat) c else (depth + 1 : Nat)).toNat
      (mode.after b.comments c cs.head?) cs := by
  have hmarks : '"' ≠ b.opening ∧ '"' ≠ b.closing ∧ '/' ≠ b.opening ∧ '/' ≠ b.closing :=
    ⟨(hb.opening_mark _ (by decide)).symm, (hb.closing_mark _ (by decide)).symm,
      (hb.opening_mark _ (by decide)).symm, (hb.closing_mark _ (by decide)).symm⟩
  obtain ⟨hquoteOpening, hquoteClosing, hslashOpening, hslashClosing⟩ := hmarks
  cases mode with
  | code =>
    rw [if_pos rfl]
    refine (closesGroups_cons hb).trans ?_
    by_cases hstring : c = '"'
    · subst hstring
      simp [IsCharItem, Mode.after, Brackets.depthAfter, hquoteOpening, hquoteClosing]
    by_cases hcomment : b.comments = true ∧ c = '/' ∧ cs.head? = some '/'
    · obtain ⟨hcomments, rfl, hhead⟩ := hcomment
      simp [IsCharItem, Mode.after, Brackets.depthAfter, hslashOpening, hslashClosing, hcomments, hhead]
    have hafter : Mode.code.after b.comments c cs.head? = .code := by
      simp only [Mode.after, if_neg hstring, Bool.and_eq_true, decide_eq_true_eq, beq_iff_eq, and_assoc]
      exact if_neg hcomment
    rw [hafter]
    by_cases hopening : c = b.opening
    · subst hopening
      have hdepth : ((depth : Int) + 1 + 1).toNat = depth + 2 := rfl
      simp [IsCharItem, Brackets.depthAfter, hstring, hcomment, hb.opening_ne, hdepth]
    by_cases hclosing : c = b.closing
    · subst hclosing
      simp [IsCharItem, Brackets.depthAfter, hstring, hcomment, hopening]
    · simp [IsCharItem, Brackets.depthAfter, hstring, hcomment, hopening, hclosing]
  | string => exact finishes_string_cons
  | escape =>
    simp only [Finishes, Mode.after, reduceCtorEq, if_false, List.cons.injEq]
    constructor
    · rintro ⟨d, tail, rest, htail, hrest, -, rfl⟩
      exact ⟨tail, rest, htail, hrest, rfl⟩
    · rintro ⟨tail, rest, htail, hrest, rfl⟩
      exact ⟨c, tail, rest, htail, hrest, rfl, rfl⟩
  | comment => exact finishes_comment_cons hb

/-- A search ends at the bracket that closes the last open group. -/
theorem closingFrom_eq_some_iff (hb : b.Distinct) {mode : Mode} {n : Nat} :
    closingFrom b mode (depth + 1 : Nat) cs = some n ↔
      n < cs.length ∧ Finishes b (depth + 1) mode (cs.take (n + 1)) := by
  induction cs generalizing mode depth n with
  | nil => simp [closingFrom]
  | cons c cs ih =>
    rw [closingFrom_cons, List.take_succ_cons, finishes_cons hb]
    by_cases hends : mode = .code ∧ c = b.closing ∧ b.depthAfter (depth + 1 : Nat) c = 0
    · -- The last group is closed, and nothing is left to be read.
      obtain ⟨rfl, hclosing, hdepth⟩ := hends
      have hquote : c ≠ '"' := hclosing ▸ hb.closing_mark _ (by decide)
      have hslash : c ≠ '/' := hclosing ▸ hb.closing_mark _ (by decide)
      rw [if_pos ⟨rfl, hclosing, hdepth⟩, if_pos rfl, hdepth]
      cases cs with
      | nil => simp [Mode.after, hquote, hslash, ClosesGroups, eq_comm]
      | cons d cs => simp [Mode.after, hquote, hslash, ClosesGroups]; omega
    · obtain ⟨later, hlater⟩ : ∃ later : Nat, (if mode = .code then b.depthAfter (depth + 1 : Nat) c
          else (depth + 1 : Nat)) = (later + 1 : Nat) := by
        refine ⟨(if mode = .code then b.depthAfter (depth + 1 : Nat) c
          else (depth + 1 : Nat)).toNat - 1, ?_⟩
        simp only [Brackets.depthAfter] at hends ⊢
        grind
      rw [if_neg hends, hlater, Int.toNat_natCast]
      cases n with
      | zero => simp [not_finishes_nil]
      | succ n =>
        have hhead : (cs.take (n + 1)).head? = cs.head? := by cases cs <;> rfl
        rw [hhead, List.length_cons, Nat.add_lt_add_iff_right, ← ih]
        simp

theorem isGroup_cons_iff : IsGroup b (b.opening :: cs) ↔ ClosesGroups b 1 cs := by
  simp [IsGroup, ClosesGroups]

theorem not_isGroup_nil : ¬IsGroup b [] := by
  simp [IsGroup]

/-- The bracket that closes the first one of a text is the end of the group that starts there. -/
theorem closing?_eq_some_iff (hb : b.Distinct) {n : Nat} : closing? b (b.opening :: cs) = some n ↔
    n ≤ cs.length ∧ IsGroup b (b.opening :: cs.take n) := by
  have hquote : b.opening ≠ '"' := hb.opening_mark _ (by decide)
  have hslash : b.opening ≠ '/' := hb.opening_mark _ (by decide)
  have hafter : Mode.code.after b.comments b.opening cs.head? = .code := by
    simp [Mode.after, hquote, hslash]
  have hdepth : b.depthAfter 0 b.opening = (0 + 1 : Nat) := by simp [Brackets.depthAfter]
  rw [closing?, closingFrom_cons, if_neg fun hends => hb.opening_ne hends.2.1, if_pos rfl, hafter, hdepth,
    isGroup_cons_iff]
  cases n with
  | zero => simp [ClosesGroups]
  | succ n =>
    rw [Nat.add_one_le_iff, ← finishes_code, ← closingFrom_eq_some_iff hb]
    simp

end Search

/-! ## Places in a text -/

/-- The place of the bracket that closes the one at the given place. -/
def closingAt? (b : Brackets) (text : List Char) (i : Nat) : Option Nat :=
  (closing? b (text.drop i)).map (i + ·)

/-- The search for the bracket that closes another one finds a place exactly if the text from the one bracket
to the other is a group, and it finds none exactly if no group starts at the bracket. -/
theorem closingAt?_group {b : Brackets} (hb : b = braces ∨ b = parentheses) {text : List Char} {i : Nat}
    (hi : text[i]? = some b.opening) :
    (∀ j, closingAt? b text i = some j ↔ j < text.length ∧ IsGroup b (text.extract i (j + 1))) ∧
    (closingAt? b text i = none ↔ ∀ group, IsGroup b group → ¬group <+: text.drop i) := by
  have hdistinct : b.Distinct := by
    rcases hb with rfl | rfl
    · exact braces_distinct
    · exact parentheses_distinct
  obtain ⟨hlt, hopening⟩ := List.getElem?_eq_some_iff.mp hi
  have hdrop : text.drop i = b.opening :: text.drop (i + 1) := by
    rw [List.drop_eq_getElem_cons hlt, hopening]
  have hplace (j : Nat) : closingAt? b text i = some j ↔
      j < text.length ∧ IsGroup b (text.extract i (j + 1)) := by
    have hextract (n : Nat) :
        text.extract i (i + n + 1) = b.opening :: (text.drop (i + 1)).take n := by
      rw [List.extract_eq_take_drop, Nat.add_assoc, Nat.add_sub_cancel_left, hdrop, List.take_succ_cons]
    rw [closingAt?, Option.map_eq_some_iff, hdrop]
    constructor
    · rintro ⟨n, hn, rfl⟩
      obtain ⟨hlength, hgroup⟩ := (closing?_eq_some_iff hdistinct).mp hn
      rw [List.length_drop] at hlength
      exact ⟨by omega, hextract n ▸ hgroup⟩
    · rintro ⟨hj, hgroup⟩
      have hij : i ≤ j := by
        by_contra hji
        have hempty : text.extract i (j + 1) = [] := by
          rw [List.extract_eq_take_drop, Nat.sub_eq_zero_of_le (by omega), List.take_zero]
        exact not_isGroup_nil (hempty ▸ hgroup)
      obtain ⟨n, rfl⟩ := Nat.exists_eq_add_of_le hij
      refine ⟨n, (closing?_eq_some_iff hdistinct).mpr ⟨?_, hextract n ▸ hgroup⟩, rfl⟩
      rw [List.length_drop]
      omega
  refine ⟨hplace, Option.eq_none_iff_forall_ne_some.trans ⟨fun hnone group hgroup hfront => ?_,
    fun hnone j hj => ?_⟩⟩
  · have hlength := hfront.length_le
    have hpos : 0 < group.length := List.length_pos_iff.mpr fun hnil => not_isGroup_nil (hnil ▸ hgroup)
    rw [List.length_drop] at hlength
    refine hnone (i + group.length - 1) ((hplace _).mpr ⟨by omega, ?_⟩)
    rwa [List.extract_eq_take_drop, show i + group.length - 1 + 1 - i = group.length by omega,
      ← List.prefix_iff_eq_take.mp hfront]
  · refine hnone _ ((hplace j).mp hj).2 ?_
    rw [List.extract_eq_take_drop]
    exact List.take_prefix _ _

/-- A group with a group, a string with an escaped quote and a comment in it. -/
def mixedText : List Char := "a \x7b \"\x7d\\\"\" // \x7d\n \x7b \x7d \x7d \x7d".toList

/-- Arguments that are closed in a string only. -/
def openText : List Char := "f(\")\" // (\n)".toList

theorem closingAt?_group_mixed : mixedText[2]? = some braces.opening ∧
    openText[1]? = some parentheses.opening ∧ IsGroup braces (mixedText.extract 2 21) ∧
    closingAt? braces mixedText 2 = some 20 ∧
    ∀ group, IsGroup parentheses group → ¬group <+: openText.drop 1 := by
  have hbrace : mixedText[2]? = some braces.opening := by decide
  have hparenthesis : openText[1]? = some parentheses.opening := by decide
  have hclosing : closingAt? braces mixedText 2 = some 20 := by decide +kernel
  have hnone : closingAt? parentheses openText 1 = none := by decide +kernel
  exact ⟨hbrace, hparenthesis, (((closingAt?_group (.inl rfl) hbrace).1 20).mp hclosing).2, hclosing,
    (closingAt?_group (.inr rfl) hparenthesis).2.mp hnone⟩

end SchemaTypes.Prisma
