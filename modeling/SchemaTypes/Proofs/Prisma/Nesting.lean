import SchemaTypes.Proofs.Prisma.Canonical

/-!
# Scanning canonical text

Three scans go through the text of a block: for the brace that closes it, for the comment on a line and
for the parenthesis that closes the arguments of an attribute. Each of them goes through an expression
and is outside all texts in quotes afterwards, at the depth at which it started. The reason is one
lemma about a single character, `closes_cons`; the rest is induction over the expression.

Results:
* `closing?_parentheses_expression`: the parenthesis after an expression closes the one before it.
* `stripFrom_content`: the line of a field has no comment.
* `Body.passes_text`: the braces of a block match.
-/

namespace SchemaTypes.Prisma

/-! ## Expressions -/

/-- One character of an expression. The scan stays out of comments, and neither the character nor the
depth after it ends the scan for a closing bracket. -/
theorem closes_cons {mode : Mode} {depth : Nat} {c : Char} {cs : List Char}
    (h : closes mode depth (c :: cs) = true) (comments : Bool) (rest : List Char) :
    ∃ depth', closes (mode.after comments c (cs ++ ')' :: rest).head?) depth' cs = true ∧
      (mode ≠ .code → depth' = depth) ∧
      (mode = .code → parentheses.depthAfter (depth + 1) c = depth' + 1 ∧ c ≠ '\x7b' ∧ c ≠ '\x7d' ∧
        ¬(c = '/' ∧ (cs ++ ')' :: rest).head? = some '/')) := by
  have hhead : (cs ++ ')' :: rest).head? = some '/' ↔ cs.head? = some '/' := by
    cases cs <;> simp
  cases mode with
  | code =>
    simp only [closes] at h
    split at h
    · rename_i hc
      subst hc
      exact ⟨depth, h, by simp, fun _ => by simp [Brackets.depthAfter, parentheses]⟩
    rename_i hquote
    split at h
    · rename_i hc
      subst hc
      exact ⟨depth + 1, by simpa [Mode.after] using h, by simp, fun _ => by
        simp [Brackets.depthAfter, parentheses]⟩
    rename_i hopening
    split at h
    · rename_i hc
      subst hc
      simp only [Bool.and_eq_true, decide_eq_true_eq] at h
      refine ⟨depth - 1, by simpa [Mode.after] using h.2, by simp, fun _ => ⟨?_, by simp⟩⟩
      simp only [Brackets.depthAfter, parentheses, Char.reduceEq, if_false, if_true]
      omega
    rename_i hclosing
    split at h
    · simp at h
    · rename_i hother
      simp only [not_or, ← hhead] at hother
      obtain ⟨hopen, hclose, hslash⟩ := hother
      have hnext : Mode.after comments .code c (cs ++ ')' :: rest).head? = .code := by
        simp only [Mode.after, if_neg hquote, Bool.and_eq_true, decide_eq_true_eq, beq_iff_eq,
          and_assoc]
        exact if_neg fun hcomment => hslash hcomment.2
      exact ⟨depth, by rwa [hnext], by simp, fun _ =>
        ⟨by simp [Brackets.depthAfter, parentheses, hopening, hclosing], hopen, hclose, hslash⟩⟩
  | string =>
    simp only [closes] at h
    refine ⟨depth, ?_, fun _ => rfl, by simp⟩
    simp only [Mode.after]
    split at h
    · rename_i hquote
      simpa [hquote] using h
    split at h
    · rename_i hquote hescape
      simpa [hquote, hescape] using h
    · rename_i hquote hescape
      simpa [hquote, hescape] using h
  | escape => exact ⟨depth, h, fun _ => rfl, by simp⟩
  | comment => simp [closes] at h

/-- The scan for a brace goes through an expression. -/
theorem closingFrom_braces_expression {mode : Mode} {depth : Nat} {cs : List Char}
    (h : closes mode depth cs = true) (opened : Int) (rest : List Char) :
    closingFrom braces mode opened (cs ++ ')' :: rest) =
      (closingFrom braces .code opened (')' :: rest)).map (· + cs.length) := by
  induction cs generalizing mode depth with
  | nil => cases mode <;> simp [closes] at h ⊢
  | cons c cs ih =>
    obtain ⟨depth', hrest, -, hcode⟩ := closes_cons h braces.comments rest
    have hnow (hmode : mode = .code) : braces.depthAfter opened c = opened ∧ c ≠ braces.closing := by
      obtain ⟨-, hopen, hclose, -⟩ := hcode hmode
      exact ⟨by simp [Brackets.depthAfter, braces, hopen, hclose], hclose⟩
    have hstep : closingFrom braces mode opened (c :: (cs ++ ')' :: rest)) =
        (closingFrom braces (mode.after braces.comments c (cs ++ ')' :: rest).head?) opened
          (cs ++ ')' :: rest)).map (· + 1) := by
      by_cases hmode : mode = .code
      · simp [closingFrom, hmode, hnow hmode]
      · simp [closingFrom, hmode]
    rw [List.cons_append, hstep, ih hrest, Option.map_map]
    simp [Function.comp_def, Nat.add_assoc]

/-- The scan for a parenthesis goes through an expression. -/
theorem closingFrom_parentheses_expression {mode : Mode} {depth : Nat} {cs : List Char}
    (h : closes mode depth cs = true) (rest : List Char) :
    closingFrom parentheses mode (depth + 1) (cs ++ ')' :: rest) = some cs.length := by
  induction cs generalizing mode depth with
  | nil =>
    cases mode <;> simp only [closes, beq_iff_eq, Bool.false_eq_true] at h
    subst h
    simp [closingFrom, Brackets.depthAfter, parentheses]
  | cons c cs ih =>
    obtain ⟨depth', hrest, hstring, hcode⟩ := closes_cons h parentheses.comments rest
    rw [List.cons_append, closingFrom]
    by_cases hmode : mode = .code
    · obtain ⟨hdepth, -⟩ := hcode hmode
      have hopen : ¬(c = parentheses.closing ∧ (depth' : Int) + 1 = 0) := by omega
      simp only [if_pos hmode, hdepth, if_neg hopen, ih hrest]
      rfl
    · have hsame := hstring hmode
      subst hsame
      simp only [if_neg hmode, ih hrest]
      rfl

/-- The scan for a comment goes through an expression. -/
theorem stripFrom_expression {mode : Mode} {depth : Nat} {cs : List Char}
    (h : closes mode depth cs = true) (rest : List Char) :
    stripFrom mode (cs ++ ')' :: rest) = cs ++ stripFrom .code (')' :: rest) := by
  induction cs generalizing mode depth with
  | nil => cases mode <;> simp [closes] at h ⊢
  | cons c cs ih =>
    obtain ⟨depth', hrest, -, hcode⟩ := closes_cons h false rest
    rw [List.cons_append, stripFrom, if_neg fun hcomment => (hcode hcomment.1).2.2.2 hcomment.2,
      ih hrest]
    rfl

/-- The parenthesis after an expression closes the one before it. -/
theorem closing?_parentheses_expression {cs : List Char} (h : closes .code 0 cs = true)
    (rest : List Char) : closing? parentheses ('(' :: (cs ++ ')' :: rest)) = some (cs.length + 1) := by
  have hinner : closingFrom parentheses .code 1 (cs ++ ')' :: rest) = some cs.length :=
    closingFrom_parentheses_expression h rest
  rw [closing?, closingFrom]
  simp only [Mode.after, Brackets.depthAfter, parentheses] at hinner ⊢
  simp [hinner]

/-! ## Plain text -/

/-- Whether the character is no brace and starts neither a text in quotes nor a comment. -/
def isPlain (c : Char) : Bool :=
  c != '"' && c != '/' && c != '\x7b' && c != '\x7d'

theorem ne_of_isWord {c d : Char} (h : Text.isWord c = true) (hd : Text.isWord d = false) :
    c ≠ d := by
  rintro rfl
  simp [h] at hd

theorem isPlain_of_isWord {c : Char} (h : Text.isWord c = true) : isPlain c = true := by
  simp only [isPlain, Bool.and_eq_true, bne_iff_ne]
  exact ⟨⟨⟨ne_of_isWord h (by decide), ne_of_isWord h (by decide)⟩, ne_of_isWord h (by decide)⟩,
    ne_of_isWord h (by decide)⟩

theorem name_plain {name : String} (h : Text.isName name = true) :
    name.toList.all isPlain = true :=
  List.all_eq_true.mpr fun c hc => isPlain_of_isWord ((Text.isName_iff.mp h).2 c hc)

/-- Whether the scan for a brace goes through a text without ending in it. -/
def Passes (cs : List Char) : Prop :=
  ∀ depth rest, closingFrom braces .code depth (cs ++ rest) =
    (closingFrom braces .code depth rest).map (· + cs.length)

theorem Passes.append {cs ds : List Char} (hc : Passes cs) (hd : Passes ds) : Passes (cs ++ ds) := by
  intro depth rest
  rw [List.append_assoc, hc, hd, Option.map_map, List.length_append]
  simp only [Function.comp_def, Nat.add_assoc, Nat.add_comm ds.length]

theorem Passes.flatMap {α : Type} {f : α → List Char} {xs : List α} (h : ∀ x ∈ xs, Passes (f x)) :
    Passes (xs.flatMap f) := by
  induction xs with
  | nil => intro depth rest; simp
  | cons x xs ih =>
    rw [List.flatMap_cons]
    exact (h x List.mem_cons_self).append (ih fun y hy => h y (List.mem_cons_of_mem x hy))

theorem passes_plain {cs : List Char} (h : cs.all isPlain = true) : Passes cs := by
  induction cs with
  | nil => intro depth rest; simp
  | cons c cs ih =>
    intro depth rest
    simp only [List.all_cons, isPlain, Bool.and_eq_true, bne_iff_ne] at h
    obtain ⟨⟨⟨⟨hquote, hslash⟩, hopen⟩, hclose⟩, hrest⟩ := h
    rw [List.cons_append, closingFrom]
    simp only [Mode.after, braces, Brackets.depthAfter, hquote, hslash, hopen, hclose, if_false,
      decide_false, Bool.and_false, Bool.false_and, Bool.false_eq_true, false_and, if_true]
    rw [← braces, ih hrest, Option.map_map]
    simp [Function.comp_def, Nat.add_assoc]

theorem stripFrom_plain {cs : List Char} (h : cs.all isPlain = true) (rest : List Char) :
    stripFrom .code (cs ++ rest) = cs ++ stripFrom .code rest := by
  induction cs with
  | nil => rfl
  | cons c cs ih =>
    simp only [List.all_cons, isPlain, Bool.and_eq_true, bne_iff_ne] at h
    obtain ⟨⟨⟨⟨hquote, hslash⟩, -⟩, -⟩, hrest⟩ := h
    rw [List.cons_append, stripFrom, if_neg (by simp [hslash])]
    simp only [Mode.after, if_neg hquote, Bool.false_and, Bool.false_eq_true, if_false]
    rw [ih hrest]
    rfl

/-! ## Lines -/

theorem closingFrom_comment {cs : List Char} (h : '\n' ∉ cs) (depth : Int) (rest : List Char) :
    closingFrom braces .comment depth (cs ++ '\n' :: rest) =
      (closingFrom braces .code depth rest).map (· + (cs.length + 1)) := by
  induction cs with
  | nil => simp [closingFrom, Mode.after]
  | cons c cs ih =>
    simp only [List.mem_cons, not_or] at h
    rw [List.cons_append, closingFrom]
    simp only [Mode.after, if_neg (Ne.symm h.1), reduceCtorEq, if_false, ih h.2, Option.map_map]
    simp [Function.comp_def, Nat.add_assoc]

theorem passes_doc {doc : List Char} (h : '\n' ∉ doc) :
    Passes ('/' :: '/' :: '/' :: ' ' :: doc ++ ['\n']) := by
  intro depth rest
  have hline : '\n' ∉ '/' :: '/' :: ' ' :: doc := by simpa using h
  have hcomment := closingFrom_comment hline depth rest
  simp only [List.cons_append, List.append_assoc, List.nil_append] at hcomment ⊢
  rw [closingFrom]
  simp [Mode.after, braces, Brackets.depthAfter] at hcomment ⊢
  simp [hcomment, Function.comp_def, Nat.add_assoc]

/-- An expression with its closing parenthesis. -/
theorem passes_expression {cs : List Char} (h : closes .code 0 cs = true) : Passes (cs ++ [')']) := by
  intro depth rest
  rw [List.append_assoc, List.singleton_append, closingFrom_braces_expression h,
    ← List.singleton_append, passes_plain (by decide : [')'].all isPlain = true),
    Option.map_map, List.length_append]
  simp only [Function.comp_def, Nat.add_assoc, Nat.add_comm cs.length]

theorem passes_defaultAttribute {text : Option String} (h : text.all isExpression = true) :
    Passes (defaultAttribute text) := by
  cases text with
  | none => exact passes_plain rfl
  | some text =>
    simp only [Option.all_some, isExpression, Bool.and_eq_true] at h
    change Passes (attributeMark defaultKey ++ ['('] ++ text.toList ++ [')'])
    rw [List.append_assoc]
    exact (passes_plain (by decide)).append (passes_expression h.2)

theorem stripFrom_defaultAttribute {text : Option String} (h : text.all isExpression = true) :
    stripFrom .code (defaultAttribute text) = defaultAttribute text := by
  cases text with
  | none => rfl
  | some text =>
    simp only [Option.all_some, isExpression, Bool.and_eq_true] at h
    change stripFrom .code (attributeMark defaultKey ++ ['('] ++ text.toList ++ [')']) = _
    rw [List.append_assoc, stripFrom_plain (by decide), stripFrom_expression h.2]
    rfl

theorem isLineEnd_feed : Text.isLineEnd '\n' = true := by decide

theorem passes_docText {docs : List String} (h : docs.all isDoc = true) : Passes (docText docs) := by
  refine Passes.flatMap fun doc hdoc => passes_doc fun hfeed => ?_
  have hline := List.all_eq_true.mp h doc hdoc
  simp only [isDoc, Bool.and_eq_true, List.all_eq_true] at hline
  simpa [isLineEnd_feed] using hline.2 _ hfeed

theorem flagText_all {p : Char → Prop} {text : List Char} (h : ∀ c ∈ text, p c) (flag : Bool) :
    ∀ c ∈ flagText flag text, p c := by
  cases flag
  · simp [flagText]
  · exact h

/-- The characters of a field line, up to its default, that belong to no word. -/
def frontMarks : List Char := [' ', '[', ']', '?', '@']

namespace FieldDecl

/-- The line of a field up to its default. -/
def front (f : FieldDecl) : List Char :=
  f.name.toList ++ ' ' :: f.typeName.toList ++ (flagText f.isArray ['[', ']'] ++
    flagText f.isOptional ['?'] ++ flagText f.isId (attributeMark idKey) ++
    flagText f.isUnique (attributeMark uniqueKey))

theorem content_eq (f : FieldDecl) : f.content = f.front ++ defaultAttribute f.defaultText := by
  simp [content, front, suffix, attributeText]

variable {f : FieldDecl}

/-- What holds of the characters of words and of the marks holds up to the default. -/
theorem front_all {p : Char → Prop} (h : f.isCanonical = true)
    (hword : ∀ c, Text.isWord c = true → p c) (hmark : ∀ c ∈ frontMarks, p c) :
    ∀ c ∈ f.front, p c := by
  simp only [isCanonical, Bool.and_eq_true] at h
  obtain ⟨⟨⟨-, hname⟩, htype⟩, -⟩ := h
  have hattribute (key : List Char) (hkey : key.all Text.isWord = true) :
      ∀ c ∈ attributeMark key, p c := by
    intro c hc
    simp only [attributeMark, List.mem_cons] at hc
    rcases hc with rfl | rfl | hc
    · exact hmark _ (by decide)
    · exact hmark _ (by decide)
    · exact hword c (List.all_eq_true.mp hkey c hc)
  have hid := hattribute idKey (by decide)
  have hunique := hattribute uniqueKey (by decide)
  intro c hc
  simp only [front, List.mem_append, List.mem_cons] at hc
  rcases hc with (hc | rfl | hc) | ((hc | hc) | hc) | hc
  · exact hword c ((Text.isName_iff.mp hname).2 c hc)
  · exact hmark _ (by decide)
  · exact hword c ((Text.isName_iff.mp htype).2 c hc)
  · exact flagText_all (fun d hd => hmark d (Text.forall_mem_of_all (by decide) d hd)) _ c hc
  · exact flagText_all (fun d hd => hmark d (Text.forall_mem_of_all (by decide) d hd)) _ c hc
  · exact flagText_all hid _ c hc
  · exact flagText_all hunique _ c hc

theorem front_plain (h : f.isCanonical = true) : f.front.all isPlain = true :=
  List.all_eq_true.mpr
    (front_all h (fun _ => isPlain_of_isWord) (Text.forall_mem_of_all (by decide)))

/-- The line of a field has no comment. -/
theorem stripComment_content (h : f.isCanonical = true) : stripComment f.content = f.content := by
  rw [content_eq, stripComment, stripFrom_plain (front_plain h)]
  simp only [isCanonical, Bool.and_eq_true] at h
  rw [stripFrom_defaultAttribute h.2]

theorem passes_text (h : f.isCanonical = true) : Passes f.text := by
  have hfront := passes_plain (front_plain h)
  simp only [isCanonical, Bool.and_eq_true] at h
  obtain ⟨⟨⟨hdocs, -⟩, -⟩, hdefault⟩ := h
  rw [text, content_eq]
  exact ((passes_docText hdocs).append (hfront.append (passes_defaultAttribute hdefault))).append
    (passes_plain (by decide))

end FieldDecl

theorem Body.passes_text {body : Body} (h : body.isCanonical = true) : Passes body.text := by
  cases body with
  | values vs =>
    simp only [Body.isCanonical, Bool.and_eq_true, List.all_eq_true] at h
    exact Passes.flatMap fun value hvalue =>
      (passes_plain (name_plain (h.2 value hvalue))).append (passes_plain (by decide))
  | fields keyword fs =>
    simp only [Body.isCanonical, Bool.and_eq_true, List.all_eq_true] at h
    exact Passes.flatMap fun f hf => FieldDecl.passes_text (h.2 f hf)

/-- The brace that closes a block is the one behind its lines. -/
theorem closing?_braces_body {body : Body} (h : body.isCanonical = true) (rest : List Char) :
    closing? braces ('\x7b' :: '\n' :: (body.text ++ '\x7d' :: rest)) =
      some (body.text.length + 2) := by
  have hinner : closingFrom braces .code 1 ('\n' :: (body.text ++ '\x7d' :: rest)) =
      some (body.text.length + 1) := by
    have hlines := (passes_plain (by decide : ['\n'].all isPlain = true)).append
      (Body.passes_text h) 1 ('\x7d' :: rest)
    rw [List.append_assoc, List.singleton_append] at hlines
    rw [hlines]
    simp [closingFrom, Brackets.depthAfter, braces]
  rw [closing?, closingFrom]
  simp only [Mode.after, Brackets.depthAfter, braces] at hinner ⊢
  simp [hinner]

end SchemaTypes.Prisma
