import SchemaTypes.Proofs.Declaration.Unambiguous

/-!
# Literals and keys are read back

Whoever reads a declaration takes a literal for the text between its quotes, with each escape replaced by
the character that it stands for, and a choice for the texts of its literals. Written literals come back as
the texts they were written for: the two characters with a meaning of their own inside a literal are
escaped, and they stand for themselves behind a backslash.

A literal must end on the line on which it starts. The ends of lines are not escaped, so a text that holds
one is not read back, and this is the only exception. A name with a line feed at its end is written as it
stands if an identifier comes before it.

Results:
* `readBody?_literalBody`: the inside of a literal is read up to its closing quote.
* `readLiteral?_literal`, `readUnion?_union`: literals and choices, for every rule on raw characters.
* `readsAs_propertyKey_iff`: the keys that are read as their names.
* `texts_read_back_iff`: keys, literals and choices together.
* `feeds_not_read_back`: texts that are not read back.
-/

namespace SchemaTypes.Declaration

/-! ## Reading -/

/-- Whether the character ends a line, so that it must not stand in a literal as it is. -/
def isFeed (c : Char) : Bool :=
  c == '\n' || c == '\r'

/-- Whether the text holds the end of a line. -/
def holdsFeed (s : String) : Bool :=
  s.toList.any isFeed

/-- The characters that stand for another one behind a backslash. -/
def namedEscapes : List (Char × Char) :=
  [('n', '\n'), ('r', '\r'), ('t', '\t'), ('b', '\x08'), ('f', '\x0c'), ('v', '\x0b')]

/-- The character that is meant by one behind a backslash. Escapes of more than one character are not
read: numbers, and the ends of lines that go on. -/
def escaped? (c : Char) : Option Char :=
  match namedEscapes.lookup c with
  | some d => some d
  | none =>
    if isFeed c || c == '\u2028' || c == '\u2029' || c == 'x' || c == 'u' || c.isDigit then none
    else some c

/-- The text of a literal whose opening quote has been read, and what follows its closing quote. `raw` says
which characters may stand in it as they are. -/
def readBody? (raw : Char → Bool) : List Char → Option (List Char × List Char)
  | [] => none
  | '\'' :: rest => some ([], rest)
  | ['\\'] => none
  | '\\' :: c :: rest =>
    match escaped? c with
    | some d => (readBody? raw rest).map fun (value, after) => (d :: value, after)
    | none => none
  | c :: rest =>
    if raw c then (readBody? raw rest).map fun (value, after) => (c :: value, after) else none

/-- What follows a literal is an end of the text. -/
theorem readBody?_suffix {raw : Char → Bool} {cs value rest : List Char}
    (h : readBody? raw cs = some (value, rest)) : rest <:+ cs := by
  induction cs using readBody?.induct raw generalizing value with
  | case1 => simp [readBody?] at h
  | case2 after =>
    simp only [readBody?, Option.some.injEq, Prod.mk.injEq] at h
    rw [← h.2]
    exact List.suffix_cons _ _
  | case3 => simp [readBody?] at h
  | case4 c cs d hd ih =>
    simp only [readBody?, hd, Option.map_eq_some_iff, Prod.mk.injEq] at h
    obtain ⟨⟨inner, after⟩, hread, -, rfl⟩ := h
    exact (ih hread).trans ((List.suffix_cons c cs).trans (List.suffix_cons _ _))
  | case5 c cs hd => simp [readBody?, hd] at h
  | case6 c cs _ _ _ hraw ih =>
    simp only [readBody?, hraw, if_true, Option.map_eq_some_iff, Prod.mk.injEq] at h
    obtain ⟨⟨inner, after⟩, hread, -, rfl⟩ := h
    exact (ih hread).trans (List.suffix_cons c cs)
  | case7 c cs _ _ _ hraw => simp [readBody?, hraw] at h

/-- The text of a literal. -/
def readLiteral? (raw : Char → Bool) (t : String) : Option String :=
  match t.toList with
  | '\'' :: cs =>
    match readBody? raw cs with
    | some (value, []) => some (String.ofList value)
    | _ => none
  | _ => none

example : readLiteral? (fun _ => true) "'\\\\\\'\\n'" = some "\\'\n" := by decide

/-- The texts of literals with bars between them, of one literal at least. -/
def readLiterals? (raw : Char → Bool) (cs : List Char) : Option (List String) :=
  match cs with
  | '\'' :: body =>
    match _h : readBody? raw body with
    | some (value, []) => some [String.ofList value]
    | some (value, ' ' :: '|' :: ' ' :: rest) =>
      (readLiterals? raw rest).map (String.ofList value :: ·)
    | _ => none
  | _ => none
termination_by cs.length
decreasing_by
  have hle := (readBody?_suffix _h).length_le
  simp only [List.length_cons] at hle ⊢
  omega

/-- The texts of a choice. A choice of nothing is empty. -/
def readUnion? (raw : Char → Bool) (t : String) : Option (List String) :=
  if t = "" then some [] else readLiterals? raw t.toList

/-! ## Literals -/

/-- Whether the character can stand in a written literal: what has a meaning of its own is escaped. -/
def fitsLiteral (raw : Char → Bool) (c : Char) : Bool :=
  c == '\\' || c == '\'' || raw c

section Literals

variable (raw : Char → Bool)

theorem readBody?_literalChar (c : Char) (cs : List Char) :
    readBody? raw (literalChar c ++ cs) =
      if fitsLiteral raw c then (readBody? raw cs).map fun (value, after) => (c :: value, after)
      else none := by
  unfold literalChar fitsLiteral
  by_cases hslash : c = '\\'
  · subst hslash
    rfl
  · by_cases hquote : c = '\''
    · subst hquote
      rfl
    · rw [if_neg (by simp [hslash, hquote]), List.singleton_append, readBody?]
      · simp [hslash, hquote]
      · exact fun h => hquote h
      · simp [hslash]
      · simp [hslash]

/-- The inside of a literal is read up to its closing quote. -/
theorem readBody?_literalBody (cs rest : List Char) :
    readBody? raw (literalBody cs ++ '\'' :: rest) =
      if cs.all (fitsLiteral raw) then some (cs, rest) else none := by
  induction cs with
  | nil => rfl
  | cons c cs ih =>
    rw [literalBody, List.flatMap_cons, List.append_assoc, readBody?_literalChar, ← literalBody, ih,
      List.all_cons]
    cases fitsLiteral raw c <;> cases cs.all (fitsLiteral raw) <;> rfl

/-- A literal is read as its text, unless a character of it must not stand as it is. -/
theorem readLiteral?_literal (s : String) :
    readLiteral? raw (literal s) = if s.toList.all (fitsLiteral raw) then some s else none := by
  have hbody := readBody?_literalBody raw s.toList []
  rw [readLiteral?, toList_literal]
  simp only [List.cons_append, hbody]
  cases s.toList.all (fitsLiteral raw) <;> simp

theorem readLiterals?_last {body value : List Char} (h : readBody? raw body = some (value, [])) :
    readLiterals? raw ('\'' :: body) = some [String.ofList value] := by
  rw [readLiterals?]
  split <;> simp_all

theorem readLiterals?_bar {body value rest : List Char}
    (h : readBody? raw body = some (value, " | ".toList ++ rest)) :
    readLiterals? raw ('\'' :: body) = (readLiterals? raw rest).map (String.ofList value :: ·) := by
  rw [readLiterals?]
  split <;> simp_all

theorem readLiterals?_none {body : List Char} (h : readBody? raw body = none) :
    readLiterals? raw ('\'' :: body) = none := by
  rw [readLiterals?]
  split <;> simp_all

/-- A choice is read as its texts, unless a character of one must not stand as it is. -/
theorem readLiterals?_union (value : String) (values : List String) :
    readLiterals? raw (union (value :: values)).toList =
      if (value :: values).all fun v => v.toList.all (fitsLiteral raw) then some (value :: values)
      else none := by
  induction values generalizing value with
  | nil =>
    have hbody := readBody?_literalBody raw value.toList []
    rw [toList_union_cons, toList_literal, moreValues, List.flatMap_nil, List.append_nil,
      List.cons_append, List.all_cons, List.all_nil, Bool.and_true]
    split
    · rename_i hall
      rw [if_pos hall] at hbody
      rw [readLiterals?_last raw hbody, String.ofList_toList]
    · rename_i hall
      rw [if_neg hall] at hbody
      exact readLiterals?_none raw hbody
  | cons next values ih =>
    have htext : (union (value :: next :: values)).toList =
        '\'' :: (literalBody value.toList ++ '\'' :: (" | ".toList ++ (union (next :: values)).toList)) := by
      simp [toList_union_cons, toList_literal, moreValues]
    have hbody := readBody?_literalBody raw value.toList
      (" | ".toList ++ (union (next :: values)).toList)
    rw [htext, List.all_cons]
    by_cases hall : value.toList.all (fitsLiteral raw) = true
    · rw [if_pos hall] at hbody
      rw [readLiterals?_bar raw hbody, ih, hall, Bool.true_and, String.ofList_toList]
      cases (next :: values).all fun v => v.toList.all (fitsLiteral raw) <;> rfl
    · rw [if_neg hall] at hbody
      rw [readLiterals?_none raw hbody, Bool.eq_false_iff.mpr hall, Bool.false_and]
      rfl

theorem readUnion?_union (values : List String) :
    readUnion? raw (union values) =
      if values.all fun v => v.toList.all (fitsLiteral raw) then some values else none := by
  cases values with
  | nil => rfl
  | cons value values =>
    have hne : union (value :: values) ≠ "" := by
      intro h
      have hlist := congrArg String.toList h
      rw [toList_union_cons, toList_literal] at hlist
      simp at hlist
    rw [readUnion?, if_neg hne, readLiterals?_union]

end Literals

/-! ## Keys -/

/-- The rule of the language for literals: no end of a line stands in them. -/
def staysOnLine (c : Char) : Bool :=
  !isFeed c

theorem all_fitsLiteral_iff (s : String) :
    s.toList.all (fitsLiteral staysOnLine) = true ↔ holdsFeed s = false := by
  have hchar (c : Char) : fitsLiteral staysOnLine c = !isFeed c := by
    by_cases hslash : c = '\\'
    · subst hslash
      rfl
    · by_cases hquote : c = '\''
      · subst hquote
        rfl
      · simp [fitsLiteral, staysOnLine, hslash, hquote]
  rw [holdsFeed, List.any_eq_false, List.all_eq_true]
  refine forall₂_congr fun c _ => ?_
  rw [hchar, Bool.not_eq_true', Bool.not_eq_true]

theorem isFeed_of_continuesIdentifier {c : Char} (h : continuesIdentifier c = true) :
    isFeed c = false := by
  rw [Bool.eq_false_iff]
  intro hfeed
  simp only [isFeed, Bool.or_eq_true, beq_iff_eq] at hfeed
  rcases hfeed with rfl | rfl <;> exact absurd h (by decide)

theorem holdsFeed_of_isIdentifier {s : String} (h : isIdentifier s.toList = true) :
    holdsFeed s = false := by
  rw [holdsFeed, List.any_eq_false]
  intro c hc
  rw [isFeed_of_continuesIdentifier (isIdentifier_all h c hc)]
  exact Bool.false_ne_true

/-- An identifier is no literal. -/
theorem readLiteral?_of_starts {raw : Char → Bool} {t : String} {c : Char} {cs : List Char}
    (ht : t.toList = c :: cs) (h : startsIdentifier c = true) : readLiteral? raw t = none := by
  have hquote : c ≠ '\'' := by
    rintro rfl
    exact absurd h (by decide)
  rw [readLiteral?, ht]
  split
  · rename_i heq
    exact absurd (List.cons.inj heq).1 hquote
  · rfl

theorem readLiteral?_literal_iff (s : String) :
    readLiteral? staysOnLine (literal s) = some s ↔ holdsFeed s = false := by
  rw [readLiteral?_literal, Option.ite_none_right_eq_some, and_iff_left rfl, all_fitsLiteral_iff]

/-- Whether a key is read as the name: it is the name and an identifier, or a literal with this text. -/
def ReadsAs (key name : String) : Prop :=
  (isIdentifier key.toList = true ∧ key = name) ∨ readLiteral? staysOnLine key = some name

/-- The key of a property is read as its name, unless the name holds the end of a line. -/
theorem readsAs_propertyKey_iff (name : String) :
    ReadsAs (propertyKey name) name ↔ holdsFeed name = false := by
  rcases propertyKey_cases name with hkey | ⟨hkey, word, tail, hname, hword, htail⟩
  · have hno : ¬(isIdentifier (literal name).toList = true ∧ literal name = name) := by
      rintro ⟨hid, -⟩
      rw [toList_literal, List.cons_append, isIdentifier, Bool.and_eq_true] at hid
      exact absurd hid.1 (by decide)
    rw [hkey, ReadsAs, or_iff_right hno]
    exact readLiteral?_literal_iff name
  · rw [hkey]
    constructor
    · rintro (⟨hid, -⟩ | hread)
      · exact holdsFeed_of_isIdentifier hid
      · obtain ⟨c, cs, rfl⟩ := List.exists_cons_of_ne_nil
          (show word ≠ [] by rintro rfl; simp [isIdentifier] at hword)
        rw [isIdentifier, Bool.and_eq_true] at hword
        rw [readLiteral?_of_starts (by rw [hname, List.cons_append]) hword.1] at hread
        simp at hread
    · intro hfeed
      rcases htail with rfl | rfl
      · rw [List.append_nil] at hname
        exact Or.inl ⟨hname ▸ hword, rfl⟩
      · simp [holdsFeed, hname, isFeed] at hfeed

/-! ## Keys, literals and choices -/

/-- The key of a property is an identifier that is the name or a literal that is read as the name, a literal is
read as its text, and a choice as its list of texts, each exactly if no text holds the end of a line.
Where the ends of lines may stand in literals, every literal and every choice is read back. -/
theorem texts_read_back_iff (s : String) (values : List String) :
    (ReadsAs (propertyKey s) s ↔ holdsFeed s = false) ∧
    (readLiteral? staysOnLine (literal s) = some s ↔ holdsFeed s = false) ∧
    (readUnion? staysOnLine (union values) = some values ↔ ∀ v ∈ values, holdsFeed v = false) ∧
    readLiteral? (fun _ => true) (literal s) = some s ∧
    readUnion? (fun _ => true) (union values) = some values := by
  have hfree (t : String) : t.toList.all (fitsLiteral fun _ => true) = true := by
    simp [fitsLiteral]
  refine ⟨readsAs_propertyKey_iff s, ?_, ?_, ?_, ?_⟩
  · exact readLiteral?_literal_iff s
  · rw [readUnion?_union, Option.ite_none_right_eq_some, and_iff_left rfl, List.all_eq_true]
    exact forall₂_congr fun v _ => all_fitsLiteral_iff v
  · rw [readLiteral?_literal, if_pos (hfree s)]
  · rw [readUnion?_union, if_pos (List.all_eq_true.mpr fun v _ => hfree v)]

/-- A name that ends with a line feed is its own key and not read back, and a literal and a choice break at
a line feed. -/
theorem feeds_not_read_back :
    (propertyKey "a\n" = "a\n" ∧ ¬ReadsAs (propertyKey "a\n") "a\n") ∧
    (literal "a\nb" = "'a\nb'" ∧ readLiteral? staysOnLine (literal "a\nb") = none) ∧
    readUnion? staysOnLine (union ["a", "b\r"]) ≠ some ["a", "b\r"] := by
  refine ⟨⟨by decide, fun hread => ?_⟩, ⟨by decide, ?_⟩, fun hread => ?_⟩
  · have hfeed := (readsAs_propertyKey_iff _).mp hread
    exact absurd hfeed (by decide)
  · rw [readLiteral?_literal]
    decide
  · rw [readUnion?_union] at hread
    exact absurd hread (by decide)

end SchemaTypes.Declaration
