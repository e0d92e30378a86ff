import SchemaTypes.Proofs.Declaration.Comments
import SchemaTypes.Proofs.Declaration.TypeTree

/-!
# Bars and brackets in the type of an array

In a type, `[]` belongs to what stands directly before it. If the elements of an array have a choice for
their type, the choice must stand in brackets, or else only its last alternative is an array. Whether
parentheses are written is decided by the text of the element type: if it holds a bar with blanks around it
and does not start with a brace. For the types that are built here this is enough: the literals of a choice
have such bars between them, names have none, and the braces of an object close at its end.

It is not enough for the type of dates, which is written as it was given. A choice without blanks gets no
parentheses, and neither does one whose first alternative is an object.

Results:
* `topLevel?_append`: a text whose brackets are closed, before another text and inside of more brackets.
* `Outermost.append`, `Outermost.bracket`: texts that close their literals, comments and brackets.
* `itemType_hidesBars`, `isClosed_fieldLines`: the types of items close them, and only dates have open bars.
* `typeOf_array_bar_iff`: when a bar of the type of elements stands outside of all brackets.
-/

namespace SchemaTypes.Declaration

/-! ## Reading brackets -/

/-- The brackets that are opened, each with the one that closes it. -/
def bracketPairs : List (Char × Char) :=
  [('(', ')'), ('[', ']'), ('\x7b', '\x7d'), ('<', '>')]

/-- The brackets that are to be closed behind a character, the innermost one first. With an equals sign
before it, the character `>` is part of an arrow. -/
def bracketsAfter (arrow : Bool) (brackets : List Char) (c : Char) : Option (List Char) :=
  if c = '>' ∧ arrow then some brackets
  else match bracketPairs.lookup c with
    | some closing => some (closing :: brackets)
    | none =>
      if c ∈ bracketPairs.map Prod.snd then
        match brackets with
        | [] => none
        | closing :: rest => if c = closing then some rest else none
      else some brackets

/-- The characters of a text that stand outside of all brackets, if exactly the given brackets are closed in
it. -/
def topLevel? : (arrow : Bool) → (brackets : List Char) → List Char → Option (List Char)
  | _, brackets, [] => if brackets = [] then some [] else none
  | arrow, brackets, c :: cs =>
    (bracketsAfter arrow brackets c).bind fun later =>
      (topLevel? (c == '=') later cs).map fun top =>
        if brackets = [] ∧ later = [] then c :: top else top

/-- The characters of a text that stand outside of literals and comments, with those that open these. `next`
is the character that follows the text. -/
def Place.outside (next : Option Char) : Place → List Char → List Char
  | _, [] => []
  | p, c :: cs =>
    let rest := outside next (p.after c (cs.head?.or next)) cs
    if p = code then c :: rest else rest

/-- The characters of a text that stand outside of all literals, comments and brackets, if the text closes
these. -/
def outermost? (t : String) : Option (List Char) :=
  if Place.code.through none t.toList = .code then
    topLevel? false [] (Place.code.outside none t.toList)
  else none

example : (outermost? "('a' | b)[] | Set<c | \"|\"> /* | */").map String.ofList =
    some " | Set /" := by decide +kernel

section TopLevel

variable {arrow : Bool} {brackets : List Char} {c : Char} {cs top : List Char}

theorem topLevel?_cons_eq_some : topLevel? arrow brackets (c :: cs) = some top ↔
    ∃ later, bracketsAfter arrow brackets c = some later ∧
      ∃ rest, topLevel? (c == '=') later cs = some rest ∧
        (if brackets = [] ∧ later = [] then c :: rest else rest) = top := by
  simp [topLevel?, Option.bind_eq_some_iff]

/-- More brackets around do not matter to a character that closes none of them. -/
theorem bracketsAfter_append {later : List Char} (h : bracketsAfter arrow brackets c = some later)
    (more : List Char) : bracketsAfter arrow (brackets ++ more) c = some (later ++ more) := by
  unfold bracketsAfter at h ⊢
  by_cases harrow : c = '>' ∧ arrow = true
  · rw [if_pos harrow, Option.some.injEq] at h
    rw [if_pos harrow, h]
  rw [if_neg harrow] at h ⊢
  cases hopening : bracketPairs.lookup c with
  | some closing =>
    simp only [hopening, Option.some.injEq] at h ⊢
    rw [← h, List.cons_append]
  | none =>
    simp only [hopening] at h ⊢
    by_cases hclosing : c ∈ bracketPairs.map Prod.snd
    · rw [if_pos hclosing] at h ⊢
      cases brackets with
      | nil => simp at h
      | cons closing rest =>
        obtain ⟨hsame, hrest⟩ := Option.ite_none_right_eq_some.mp h
        obtain rfl := Option.some.inj hrest
        exact if_pos hsame
    · rw [if_neg hclosing, Option.some.injEq] at h
      rw [if_neg hclosing, h]

/-- An equals sign before a text matters only to the end of an arrow. -/
theorem topLevel?_arrow (hhead : cs.head? ≠ some '>') :
    topLevel? arrow brackets cs = topLevel? false brackets cs := by
  cases cs with
  | nil => rfl
  | cons c cs =>
    have hc : c ≠ '>' := by simpa using hhead
    simp [topLevel?, bracketsAfter, hc]

/-- A text that closes its own brackets does not start with the end of an arrow. -/
theorem head?_ne_of_topLevel? (h : topLevel? false [] cs = some top) : cs.head? ≠ some '>' := by
  cases cs with
  | nil => simp
  | cons c cs =>
    rintro ⟨⟩
    obtain ⟨later, hlater, -⟩ := topLevel?_cons_eq_some.mp h
    have hnone : bracketsAfter false [] '>' = none := by decide
    simp [hnone] at hlater

/-- What a text is read as before another one and inside of more brackets. -/
theorem topLevel?_append (h : topLevel? arrow brackets cs = some top) (more : List Char)
    {ds : List Char} (hhead : ds.head? ≠ some '>') :
    topLevel? arrow (brackets ++ more) (cs ++ ds) =
      (topLevel? false more ds).map fun rest => if more = [] then top ++ rest else rest := by
  induction cs generalizing arrow brackets top with
  | nil =>
    rw [topLevel?, Option.ite_none_right_eq_some, Option.some.injEq] at h
    obtain ⟨rfl, rfl⟩ := h
    rw [List.nil_append, List.nil_append, topLevel?_arrow hhead]
    simp
  | cons c cs ih =>
    obtain ⟨later, hlater, rest, hrest, rfl⟩ := topLevel?_cons_eq_some.mp h
    rw [List.cons_append, topLevel?, bracketsAfter_append hlater, Option.bind_some, ih hrest, Option.map_map]
    refine congrArg (Option.map · _) (funext fun after => ?_)
    by_cases hmore : more = []
    · by_cases hopen : brackets = [] ∧ later = []
      · simp [hmore, hopen]
      · simp [hmore, hopen]
    · simp [hmore]

end TopLevel

/-! ## Texts that close what they open -/

namespace Place

theorem outside_cons (next : Option Char) (p : Place) (c : Char) (t : List Char) :
    p.outside next (c :: t) =
      if p = code then c :: (p.after c (t.head?.or next)).outside next t
      else (p.after c (t.head?.or next)).outside next t := rfl

theorem outside_append (next : Option Char) (p : Place) (t s : List Char) :
    p.outside next (t ++ s) =
      p.outside (s.head?.or next) t ++ (p.through (s.head?.or next) t).outside next s := by
  induction t generalizing p with
  | nil => rfl
  | cons c t ih =>
    by_cases hp : p = code <;> simp [outside, through, ih, hp, List.head?_append, Option.or_assoc]

/-- Nothing is outside of literals and comments of which no character is kept. -/
theorem outside_of_marks {next : Option Char} {p : Place} {t : List Char} (h : p.marks next t = []) :
    p.outside next t = [] := by
  induction t generalizing p with
  | nil => rfl
  | cons c t ih =>
    obtain ⟨hkept, hrest⟩ := List.append_eq_nil_iff.mp h
    have hp : p ≠ code := by
      rintro rfl
      simp only [kept] at hkept
      split at hkept <;> simp at hkept
    simp [outside, hp, ih hrest]

/-- What follows a text that ends outside of literals and comments matters only if it makes a comment of the
last character. -/
theorem outside_of_through {next : Option Char} (hnext : next ≠ some '*') {p : Place} {t : List Char}
    (h : p.through none t = .code) :
    p.outside next t = p.outside none t ∧ p.through next t = .code := by
  induction t generalizing p with
  | nil => exact ⟨rfl, h⟩
  | cons c t ih =>
    cases t with
    | nil =>
      have hafter : p.after c next = .code := by
        have hlast : p.after c none = .code := h
        cases p with
        | code => simpa [after, hnext] using hlast
        | comment => simp [after] at hlast
        | literal quote | escaped quote | opening | closing => exact hlast
      exact ⟨rfl, hafter⟩
    | cons d t =>
      obtain ⟨houtside, hthrough⟩ := ih h
      have hahead : (d :: t).head?.or next = (d :: t).head?.or none := rfl
      exact ⟨by rw [outside_cons next, outside_cons none, hahead, houtside], hthrough⟩

end Place

/-- Whether the text, read outside of literals and comments, ends outside of them, and the characters there are
the given ones. What follows must not make its last character the start of a comment. -/
def HoldsOutside (t x : List Char) : Prop :=
  ∀ next, next ≠ some '*' → Place.code.outside next t = x ∧ Place.code.through next t = .code

/-- Whether the text closes its literals, comments and brackets, and the characters outside of all of them are
the given ones. -/
def Outermost (t top : List Char) : Prop :=
  ∃ x, HoldsOutside t x ∧ topLevel? false [] x = some top

theorem outermost_iff {t : String} {top : List Char} :
    outermost? t = some top ↔ Outermost t.toList top := by
  rw [outermost?, Option.ite_none_right_eq_some]
  constructor
  · rintro ⟨hcode, htop⟩
    refine ⟨_, fun next hnext => ?_, htop⟩
    exact Place.outside_of_through hnext hcode
  · rintro ⟨x, hx, htop⟩
    obtain ⟨houtside, hcode⟩ := hx none (by simp)
    exact ⟨hcode, houtside ▸ htop⟩

section Outside

variable {t s x y top : List Char}

theorem HoldsOutside.append (ht : HoldsOutside t x) (hs : HoldsOutside s y)
    (hhead : s.head? ≠ some '*') : HoldsOutside (t ++ s) (x ++ y) := by
  intro next hnext
  obtain ⟨hx, hcode⟩ := ht _ (head?_or_ne hhead hnext)
  obtain ⟨hy, hend⟩ := hs next hnext
  exact ⟨by rw [Place.outside_append, hx, hcode, hy], by rw [Place.through_append, hcode, hend]⟩

/-- Plain characters may stand before anything. -/
theorem HoldsOutside.plain_append (ht : t.all isPlain = true) (hs : HoldsOutside s y) :
    HoldsOutside (t ++ s) (t ++ y) := by
  induction t with
  | nil => exact hs
  | cons c t ih =>
    intro next hnext
    rw [List.all_cons, Bool.and_eq_true] at ht
    have hplain := isPlain_iff.mp ht.1
    obtain ⟨hx, hcode⟩ := ih ht.2 next hnext
    simp [Place.outside, Place.through, Place.after, hplain, hx, hcode]

theorem holdsOutside_plain (ht : t.all isPlain = true) : HoldsOutside t t := by
  have hnil : HoldsOutside [] [] := fun _ _ => ⟨rfl, rfl⟩
  simpa using hnil.plain_append ht

theorem outside_literalBody (next : Option Char) (cs : List Char) :
    (Place.literal '\'').outside next (literalBody cs ++ ['\'']) = [] := by
  induction cs with
  | nil => rfl
  | cons c cs ih =>
    by_cases hc : c = '\\' ∨ c = '\''
    · rcases hc with rfl | rfl <;> simp_all [literalBody, literalChar, Place.outside, Place.after]
    · have hbody : literalBody (c :: cs) = c :: literalBody cs := by
        simp [literalBody, literalChar, hc]
      simp_all [Place.outside, Place.after]

theorem holdsOutside_literal (value : String) : HoldsOutside (literal value).toList ['\''] := by
  intro next hnext
  obtain ⟨-, hthrough⟩ := reads_literal value next hnext
  refine ⟨?_, hthrough⟩
  have hquote : Place.code.after '\'' ((literalBody value.toList ++ ['\'']).head?.or next) =
      .literal '\'' := by
    have hopens : opensLiteral '\'' = true := by decide
    simp [Place.after, hopens]
  rw [toList_literal, List.cons_append, Place.outside, hquote, outside_literalBody, if_pos rfl]

theorem holdsOutside_comment (h : IsComment t) : HoldsOutside t ['/'] := by
  obtain ⟨body, rfl, hbody⟩ := h
  intro next hnext
  obtain ⟨hmarks, hthrough⟩ := marks_comment next hbody
  have houtside := Place.outside_of_marks hmarks
  generalize body ++ ['*', '/'] = rest at houtside hthrough
  simp [Place.outside, Place.through, Place.after, houtside, hthrough]

end Outside

namespace Outermost

variable {t s top top' : List Char}

theorem append (ht : Outermost t top) (hs : Outermost s top') (hhead : s.head? ≠ some '*') :
    Outermost (t ++ s) (top ++ top') := by
  obtain ⟨x, hx, htop⟩ := ht
  obtain ⟨y, hy, htop'⟩ := hs
  refine ⟨x ++ y, hx.append hy hhead, ?_⟩
  have happend := topLevel?_append htop [] (head?_ne_of_topLevel? htop')
  simpa [htop'] using happend

/-- What stands in brackets is outside of them no more. -/
theorem bracket {opening closing : Char}
    (hpair : (opening, closing) ∈ [('(', ')'), ('\x7b', '\x7d')]) (ht : Outermost t top) :
    Outermost (opening :: t ++ [closing]) [] := by
  obtain ⟨x, hx, htop⟩ := ht
  have hsigns : [closing].all isPlain = true ∧ [closing].head? ≠ some '*' ∧
      [closing].head? ≠ some '>' ∧ [opening].all isPlain = true ∧
        bracketsAfter false [] opening = some [closing] ∧
          topLevel? false [closing] [closing] = some [] ∧ opening ≠ '=' := by
    simp only [List.mem_cons, Prod.mk.injEq, List.not_mem_nil, or_false] at hpair
    rcases hpair with ⟨rfl, rfl⟩ | ⟨rfl, rfl⟩ <;> decide
  obtain ⟨hplain, hcomment, harrow, hopening, hopens, hcloses, hequals⟩ := hsigns
  refine ⟨[opening] ++ (x ++ [closing]), ?_, ?_⟩
  · exact (hx.append (holdsOutside_plain hplain) hcomment).plain_append hopening
  · have hinner := topLevel?_append htop [closing] harrow
    rw [hcloses] at hinner
    refine topLevel?_cons_eq_some.mpr ⟨[closing], hopens, [], ?_, rfl⟩
    rwa [beq_false_of_ne hequals]

end Outermost

/-! ## Characters that are no brackets -/

/-- The characters that open or close a literal, a comment or a bracket. -/
def bracketing : List Char :=
  "/'\"`()[]\x7b\x7d<>".toList

/-- Whether the character is read as itself, whatever stands before or behind it. -/
def isNeutral (c : Char) : Bool :=
  !bracketing.contains c

/-- A class of characters that leaves out those of literals, comments and brackets is one of neutral
characters. -/
theorem isNeutral_of_class {p : Char → Bool} (hp : ∀ d ∈ bracketing, p d = false) {c : Char}
    (h : p c = true) : isNeutral c = true := by
  rw [isNeutral, Bool.not_eq_true', ← Bool.not_eq_true, List.contains_iff_mem]
  intro hc
  simp [hp c hc] at h

theorem plain_of_neutral {t : List Char} (h : t.all isNeutral = true) : t.all isPlain = true :=
  List.all_eq_true.mpr fun c hc =>
    isPlain_of_class (Text.forall_mem_of_all (by decide)) (List.all_eq_true.mp h c hc)

theorem bracketsAfter_neutral {c : Char} (h : isNeutral c = true) (arrow : Bool) (brackets : List Char) :
    bracketsAfter arrow brackets c = some brackets := by
  have hne : ∀ d ∈ bracketing, c ≠ d := by
    rintro d hd rfl
    simp [isNeutral, hd] at h
  have hpairs : ∀ pair ∈ bracketPairs, pair.1 ∈ bracketing ∧ pair.2 ∈ bracketing := by decide
  have hopening : bracketPairs.lookup c = none :=
    List.lookup_eq_none_iff.mpr fun pair hpair => by simpa using hne _ (hpairs pair hpair).1
  have hclosing : c ∉ bracketPairs.map Prod.snd := by
    rw [List.mem_map]
    rintro ⟨pair, hpair, rfl⟩
    exact hne _ (hpairs pair hpair).2 rfl
  simp [bracketsAfter, hopening, hclosing]

theorem topLevel?_neutral {t : List Char} (h : t.all isNeutral = true) (arrow : Bool) :
    topLevel? arrow [] t = some t := by
  induction t generalizing arrow with
  | nil => rfl
  | cons c t ih =>
    rw [List.all_cons, Bool.and_eq_true] at h
    exact topLevel?_cons_eq_some.mpr ⟨[], bracketsAfter_neutral h.1 _ _, t, ih h.2 _, rfl⟩

section Neutral

variable {r t top : List Char}

theorem outermost_neutral (h : t.all isNeutral = true) : Outermost t t :=
  ⟨t, holdsOutside_plain (plain_of_neutral h), topLevel?_neutral h false⟩

/-- Neutral characters may stand before anything. -/
theorem Outermost.neutral_append (hr : r.all isNeutral = true) (ht : Outermost t top) :
    Outermost (r ++ t) (r ++ top) := by
  obtain ⟨x, hx, htop⟩ := ht
  refine ⟨r ++ x, hx.plain_append (plain_of_neutral hr), ?_⟩
  have happend := topLevel?_append (topLevel?_neutral hr false) [] (head?_ne_of_topLevel? htop)
  simpa [htop] using happend

theorem isNeutral_of_isWord {c : Char} (h : Text.isWord c = true) : isNeutral c = true :=
  isNeutral_of_class (Text.forall_mem_of_all (by decide)) h

theorem outermost_name {name : String} (h : Text.isName name = true) :
    Outermost name.toList name.toList :=
  outermost_neutral (List.all_eq_true.mpr fun c hc => isNeutral_of_isWord ((Text.isName_iff.mp h).2 c hc))

theorem outermost_literal (value : String) : Outermost (literal value).toList ['\''] :=
  ⟨['\''], holdsOutside_literal value, by decide⟩

theorem outermost_comment (h : IsComment t) : Outermost t ['/'] :=
  ⟨['/'], holdsOutside_comment h, by decide⟩

end Neutral

/-! ## Types close what they open -/

/-- Whether the text closes its literals, comments and brackets. -/
def IsClosed (t : List Char) : Prop :=
  ∃ top, Outermost t top

namespace IsClosed

variable {r s t : List Char}

theorem append (ht : IsClosed t) (hs : IsClosed s) (hhead : s.head? ≠ some '*') : IsClosed (t ++ s) := by
  obtain ⟨top, htop⟩ := ht
  obtain ⟨top', htop'⟩ := hs
  exact ⟨top ++ top', htop.append htop' hhead⟩

theorem neutral_append (hr : r.all isNeutral = true) (ht : IsClosed t) : IsClosed (r ++ t) := by
  obtain ⟨top, htop⟩ := ht
  exact ⟨r ++ top, htop.neutral_append hr⟩

end IsClosed

theorem isClosed_neutral {t : List Char} (h : t.all isNeutral = true) : IsClosed t :=
  ⟨t, outermost_neutral h⟩

theorem outermost_moreValues (values : List String) :
    Outermost (moreValues values) (values.flatMap fun _ => " | '".toList) := by
  induction values with
  | nil => simpa [moreValues] using outermost_neutral (t := []) rfl
  | cons value values ih =>
    have hhead : (moreValues values).head? ≠ some '*' := by
      cases values <;> simp [moreValues]
    have hvalue := ((outermost_literal value).append ih hhead).neutral_append (r := " | ".toList) (by decide)
    simpa [moreValues] using hvalue

/-- The literals of a choice, with bars between them. -/
theorem outermost_union (value : String) (values : List String) :
    Outermost (union (value :: values)).toList ('\'' :: values.flatMap fun _ => " | '".toList) := by
  rw [toList_union_cons]
  refine (outermost_literal value).append (outermost_moreValues values) ?_
  cases values <;> simp [moreValues]

/-- Whether the elements of an array with this type stand in parentheses. -/
def inParentheses (element : List Char) : Bool :=
  occursIn " | ".toList element && element.head? != some '\x7b'

/-- Whether the text closes what it opens, and stands in parentheses as the type of elements if it has a bar
outside of brackets. -/
def HidesBars (t : List Char) : Prop :=
  ∃ top, Outermost t top ∧ ('|' ∈ top → inParentheses t = true)

theorem HidesBars.isClosed {t : List Char} (h : HidesBars t) : IsClosed t := by
  obtain ⟨top, htop, -⟩ := h
  exact ⟨top, htop⟩

/-- A choice between two literals or more holds a bar with blanks around it. -/
theorem inParentheses_union (value next : String) (values : List String) :
    inParentheses (union (value :: next :: values)).toList = true := by
  have hbar : occursIn " | ".toList (union (value :: next :: values)).toList = true := by
    rw [occursIn_iff, toList_union_cons]
    exact ⟨(literal value).toList, (literal next).toList ++ moreValues values, by simp [moreValues]⟩
  rw [inParentheses, hbar, toList_union_cons, toList_literal]
  simp

theorem union_hidesBars (values : List String) : HidesBars (union values).toList := by
  cases values with
  | nil => exact ⟨[], outermost_neutral (by decide), by simp⟩
  | cons value values =>
    refine ⟨_, outermost_union value values, fun hmem => ?_⟩
    cases values with
    | nil => simp at hmem
    | cons next values => exact inParentheses_union value next values

theorem name_hidesBars {name : String} (h : Text.isName name = true) : HidesBars name.toList :=
  ⟨_, outermost_name h, fun hmem => absurd ((Text.isName_iff.mp h).2 _ hmem) (by decide)⟩

theorem enumType_hidesBars (ctx : Context) {name : Option String} (h : name.all Text.isName = true)
    (values : List String) : HidesBars (enumType ctx name values).toList := by
  cases name with
  | none => exact union_hidesBars values
  | some name =>
    simp only [enumType]
    split
    · exact name_hidesBars h
    · exact union_hidesBars values

theorem spelling_hidesBars (dateType : String) (kind : ScalarKind) :
    kind = .date ∨ HidesBars (kind.spelling dateType).toList := by
  cases kind with
  | date => exact .inl rfl
  | object =>
    simp only [ScalarKind.spelling]
    exact .inr ⟨"Record".toList, ⟨_, holdsOutside_plain (by decide), by decide⟩, by decide⟩
  | _ =>
    simp only [ScalarKind.spelling]
    exact .inr ⟨_, outermost_neutral (by decide), by decide⟩

theorem isClosed_propertyKey (name : String) : IsClosed (propertyKey name).toList := by
  rcases propertyKey_cases name with hkey | ⟨hkey, word, tail, hname, hword, htail⟩
  · rw [hkey]
    exact ⟨_, outermost_literal name⟩
  · rw [hkey, hname]
    have hneutral : word.all isNeutral = true := List.all_eq_true.mpr fun c hc =>
      isNeutral_of_class (Text.forall_mem_of_all (by decide)) (isIdentifier_all hword c hc)
    refine (isClosed_neutral ?_).neutral_append hneutral
    rcases htail with rfl | rfl <;> decide

/-- The type of the elements of an array as it stands before the brackets of the array. -/
def elementText (element : List Char) : List Char :=
  if inParentheses element then '(' :: element ++ [')'] else element

theorem arrayText_eq (element : List Char) : arrayText element = elementText element ++ ['[', ']'] := by
  unfold arrayText elementText inParentheses
  split <;> simp

/-- Parentheses hide the bars in them. -/
theorem outermost_elementText {t top : List Char} (h : Outermost t top) :
    Outermost (elementText t) (if inParentheses t then [] else top) := by
  unfold elementText
  split
  · exact h.bracket (by simp)
  · exact h

theorem isClosed_arrayText {t : List Char} (h : IsClosed t) : IsClosed (arrayText t) := by
  obtain ⟨top, htop⟩ := h
  have hbrackets : Outermost ['[', ']'] [] := ⟨['[', ']'], holdsOutside_plain (by decide), by decide⟩
  rw [arrayText_eq]
  exact ⟨_, (outermost_elementText htop).append hbrackets (by decide)⟩

theorem feed_indent_neutral (depth : Nat) : ('\n' :: (indent depth).toList).all isNeutral = true := by
  have hindent : (indent depth).toList.all isNeutral = true :=
    List.all_eq_true.mpr fun _ hc => mem_indent hc ▸ by decide
  rw [List.all_cons, hindent]
  rfl

/-- A property in front of other lines. -/
theorem isClosed_property (style : Style) (depth : Nat) (name : String) (required : Bool)
    {type rest : List Char} (htype : IsClosed type) (hrest : IsClosed rest) :
    IsClosed ('\n' :: propertyText style.readonly depth name required type ++ rest) := by
  have hpad : ('\n' :: linePad style.readonly depth).all isNeutral = true := by
    rw [linePad, ← List.cons_append, List.all_append, feed_indent_neutral]
    cases style.readonly <;> decide
  have hend : IsClosed (clauseEnd required ++ rest) :=
    hrest.neutral_append (by cases required <;> decide)
  have hclause := (htype.append hend (by cases required <;> simp [clauseEnd])).neutral_append
    (r := clauseStart required) (by cases required <;> decide)
  have hkey := (isClosed_propertyKey name).append hclause (by cases required <;> simp [clauseStart])
  have hline := hkey.neutral_append hpad
  rw [List.cons_append, propertyText_append]
  exact hline

/-- A description in front of other lines. -/
theorem isClosed_description (style : Style) (depth : Nat) {description : Option String}
    (h : style.includeComments = true → (description.all fun text => !endsComment text) = true)
    {s : List Char} (hs : IsClosed ('\n' :: s)) :
    IsClosed (feedLines (descriptionLines style depth description) ++ '\n' :: s) := by
  cases description with
  | none => exact hs
  | some text =>
    simp only [descriptionLines]
    split
    · rename_i hcomments
      simp only [Bool.and_eq_true] at hcomments
      have hcomment := isComment_line text (by simpa using h hcomments.1)
      have hclosed : IsClosed ("/** " ++ text ++ " */").toList := ⟨_, outermost_comment hcomment⟩
      have hline := (hclosed.append hs (by simp)).neutral_append (feed_indent_neutral (depth + 1))
      simpa [feedLines_cons] using hline
    · exact hs

/-- Nothing of an object is outside of its braces. -/
theorem outermost_object (depth : Nat) {fields : List Char} (h : IsClosed fields) :
    Outermost ('\x7b' :: fields ++ closingText depth) [] := by
  obtain ⟨top, htop⟩ := h.append (isClosed_neutral (feed_indent_neutral depth)) (by simp)
  have hobject : Outermost ('\x7b' :: (fields ++ '\n' :: (indent depth).toList) ++ ['\x7d']) [] :=
    htop.bracket (by simp)
  simpa [closingText] using hobject

theorem isClosed_item {ctx : Context} (hdate : IsClosed ctx.style.dateType.toList) {item : ItemType}
    {depth : Nat} (h : item = .scalar .date ∨ HidesBars (itemType ctx depth item).toList) :
    IsClosed (itemType ctx depth item).toList := by
  rcases h with rfl | h
  · simpa only [itemType, ScalarKind.spelling] using hdate
  · exact h.isClosed

mutual

/-- Only the type of dates may have a bar outside of brackets without getting parentheses. -/
theorem itemType_hidesBars {ctx : Context} (hdate : IsClosed ctx.style.dateType.toList) :
    ∀ (item : ItemType) (depth : Nat), itemNamed item = true →
      (ctx.style.includeComments = true → itemInert ctx item = true) →
        item = .scalar .date ∨ HidesBars (itemType ctx depth item).toList
  | .scalar kind, depth, _, _ => by
    simp only [itemType]
    exact (spelling_hidesBars ctx.style.dateType kind).imp_left fun hkind => congrArg _ hkind
  | .enum name values, depth, h, _ => by
    simp only [itemType]
    exact .inr (enumType_hidesBars ctx (by simpa only [itemNamed] using h) values)
  | .reference target, depth, h, _ => by
    simp only [itemType]
    exact .inr (name_hidesBars (by simpa only [itemNamed] using h))
  | .object [], depth, _, _ => by
    simp only [itemType, fieldLines, inlineObject_nil]
    exact .inr ⟨[], ⟨['\x7b', '\x7d'], holdsOutside_plain (by decide), by decide⟩, by simp⟩
  | .object (f :: fields), depth, h, hinert => by
    have hfields := isClosed_fieldLines hdate (f :: fields) depth (by simpa only [itemNamed] using h)
      (by simpa only [itemInert] using hinert)
    rw [toList_itemType_object]
    exact .inr ⟨[], outermost_object depth hfields, by simp⟩

theorem isClosed_shapeType {ctx : Context} (hdate : IsClosed ctx.style.dateType.toList) :
    ∀ (shape : Shape) (depth : Nat), shapeNamed shape = true →
      (ctx.style.includeComments = true → shapeInert ctx shape = true) →
        IsClosed (shapeType ctx depth shape).toList
  | .single item, depth, h, hinert => by
    rw [shapeType_single (by simpa only [shapeNamed] using h)]
    exact isClosed_item hdate (itemType_hidesBars hdate item depth (by simpa only [shapeNamed] using h)
      (by simpa only [shapeInert] using hinert))
  | .array item _, depth, h, hinert => by
    rw [shapeType, toList_arrayType]
    exact isClosed_arrayText (isClosed_item hdate (itemType_hidesBars hdate item depth
      (by simpa only [shapeNamed] using h) (by simpa only [shapeInert] using hinert)))

theorem isClosed_fieldLines {ctx : Context} (hdate : IsClosed ctx.style.dateType.toList) :
    ∀ (fields : List Field) (depth : Nat), fieldsNamed fields = true →
      (ctx.style.includeComments = true → fieldsInert ctx fields = true) →
        IsClosed (feedLines (fieldLines ctx depth fields))
  | [], depth, _, _ => isClosed_neutral (by simp [fieldLines])
  | ⟨name, required, shape, _, _, _, _, description⟩ :: fields, depth, h, hinert => by
    simp only [fieldsNamed, Bool.and_eq_true] at h
    simp only [fieldsInert, Bool.and_eq_true] at hinert
    have hline := isClosed_property ctx.style depth name required
      (isClosed_shapeType hdate shape (depth + 1) h.1 fun hcomments => (hinert hcomments).1.2)
      (isClosed_fieldLines hdate fields depth h.2 fun hcomments => (hinert hcomments).2)
    rw [feedLines_fieldLines_cons]
    exact isClosed_description _ depth (fun hcomments => (hinert hcomments).1.1) hline

end

/-! ## Bars in the elements of an array -/

theorem Outermost.unique {t top top' : List Char} (h : Outermost t top) (h' : Outermost t top') :
    top = top' := by
  obtain ⟨x, hx, htop⟩ := h
  obtain ⟨y, hy, htop'⟩ := h'
  obtain rfl := (hx none (by simp)).1.symm.trans (hy none (by simp)).1
  exact Option.some.inj (htop.symm.trans htop')

/-- The type of an array is a text with `[]` behind it, and behind that the null of a field that is not
required. If the names in it are words, its descriptions do not close their comments and the type of dates
closes its own literals, comments and brackets, this text closes its own too. A bar stands outside of all of
them exactly if the elements are dates, the type of dates has such a bar and it does not get parentheses. -/
theorem typeOf_array_bar_iff (ctx : Context) (depth : Nat) {f : Field} {item : ItemType}
    {isSelfReference : Bool} (hshape : f.shape = .array item isSelfReference)
    (hnamed : itemNamed item = true)
    (hinert : ctx.style.includeComments = true → itemInert ctx item = true) {dateTop : List Char}
    (hdate : outermost? ctx.style.dateType = some dateTop) :
    ∃ element top, ctx.typeOf depth f = element ++ "[]" ++ (if f.required then "" else " | null") ∧
      outermost? element = some top ∧
      ('|' ∈ top ↔ item = .scalar .date ∧ '|' ∈ dateTop ∧
        inParentheses ctx.style.dateType.toList = false) := by
  have hdateTop := outermost_iff.mp hdate
  have hitem := itemType_hidesBars ⟨dateTop, hdateTop⟩ item depth hnamed hinert
  obtain ⟨top, htop⟩ := isClosed_item ⟨dateTop, hdateTop⟩ hitem
  refine ⟨String.ofList (elementText (itemType ctx depth item).toList), _, ?_,
    outermost_iff.mpr (by simpa using outermost_elementText htop), ?_⟩
  · rw [Context.typeOf, hshape, shapeType, ← String.toList_inj]
    unfold fieldType
    split <;> simp [toList_arrayType, arrayText_eq]
  by_cases hdated : item = .scalar .date
  · subst hdated
    have htype : itemType ctx depth (.scalar .date) = ctx.style.dateType := by
      simp only [itemType, ScalarKind.spelling]
    rw [htype] at htop ⊢
    obtain rfl := htop.unique hdateTop
    split
    · rename_i hparentheses
      simp [hparentheses]
    · rename_i hopen
      simp [hopen]
  · -- Parentheses hide the bars of such an item, if it has any.
    obtain ⟨top', htop', hbar⟩ := hitem.resolve_left hdated
    obtain rfl := htop.unique htop'
    refine iff_of_false (fun hmem => ?_) fun h => hdated h.1
    split at hmem
    · simp at hmem
    · rename_i hopen
      exact hopen (hbar hmem)

/-- The style in which dates have the given type. -/
def datedContext (dateType : String) : Context :=
  ⟨["User"], ["Role"], { dateType }⟩

/-- An array of objects, with a choice, an array of dates and texts that look like brackets. -/
def visits : Field :=
  ⟨"visits", false, .array (.object [⟨"kind", false, .single (.enum none ["a | b", "\x7d"]), false, none,
      false, false, some "one | two \x7d"⟩,
    ⟨"on", true, .array (.scalar .date) false, false, none, false, false, none⟩]) false, false, none, false,
    false, none⟩

/-- The bars of a choice stand in braces here, and the type of dates keeps its own to itself. -/
theorem typeOf_array_bar_iff_visits : ∃ item, visits.shape = .array item false ∧ itemNamed item = true ∧
    itemInert (datedContext "Set<Date | string>") item = true ∧
    outermost? "Set<Date | string>" = some "Set".toList ∧
    ∃ element top, (datedContext "Set<Date | string>").typeOf 0 visits = element ++ "[]" ++ " | null" ∧
      outermost? element = some top ∧ '|' ∉ top := by
  have hdate : outermost? "Set<Date | string>" = some "Set".toList := by decide +kernel
  refine ⟨_, rfl, by decide, by decide, hdate, ?_⟩
  obtain ⟨element, top, htype, htop, hbar⟩ := typeOf_array_bar_iff (datedContext "Set<Date | string>") 0
    (f := visits) rfl (by decide) (fun _ => by decide) hdate
  exact ⟨element, top, htype, htop, fun hmem => by simpa using (hbar.mp hmem).2.1⟩

/-- A required array of dates. -/
def seen : Field :=
  ⟨"seen", true, .array (.scalar .date) false, false, none, false, false, none⟩

/-- A type of dates that is written without parentheses keeps its open bars. -/
theorem seen_open {dateType : String} (hbar : (outermost? dateType).any (·.contains '|') = true)
    (hseen : (datedContext dateType).typeOf 0 seen = dateType ++ "[]") :
    ¬∃ element top, (datedContext dateType).typeOf 0 seen = element ++ "[]" ∧
      outermost? element = some top ∧ '|' ∉ top := by
  obtain ⟨dateTop, hdate, hmem⟩ := (Option.any_eq_true _ _).mp hbar
  rintro ⟨element, top, htype, htop, hno⟩
  obtain rfl : dateType = element := by
    rw [← String.toList_inj]
    have hlist := congrArg String.toList (hseen.symm.trans htype)
    simpa using hlist
  obtain rfl := Option.some.inj (hdate.symm.trans htop)
  exact hno (List.contains_iff_mem.mp hmem)

/-- A choice without blanks gets no parentheses, and neither does one that starts with an object. -/
theorem typeOf_array_of_dates :
    (outermost? "string|Date").isSome = true ∧
    (¬∃ element top, (datedContext "string|Date").typeOf 0 seen = element ++ "[]" ∧
      outermost? element = some top ∧ '|' ∉ top) ∧
    ¬∃ element top, (datedContext "\x7b iso: string \x7d | null").typeOf 0 seen = element ++ "[]" ∧
      outermost? element = some top ∧ '|' ∉ top :=
  ⟨by decide +kernel, seen_open (by decide +kernel) (by decide +kernel),
    seen_open (by decide +kernel) (by decide +kernel)⟩

end SchemaTypes.Declaration
