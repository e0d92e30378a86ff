import SchemaTypes.Proofs.Prisma.Blocks

/-!
# Scans of joined texts

A schema that falls into two texts at the end of a line is found as the two texts are, one after the
other, if the first of them leaves no header open. Nothing that a scan looks at reaches over the cut: a
header ends on the line on which it starts, a brace is closed by the text behind it, and documentation
above a header ends at the first line that is none, which the first text has as its last one. Only lines
and places are counted from the start of the whole text.

Results:
* `header?_append`: a header ends before each character that stands in none.
* `closingFrom_append_some`, `closingFrom_append_none`: the search for a bracket in a joined text.
* `scanFrom_append`: the scan of a joined text comes to the second text.
* `IsLower.scanFrom`: a scan depends on what is above it only in lines, places and documentation.
* `scan_joined`: the scan of a joined text, and the models and enums in it.
-/

namespace SchemaTypes.Prisma

/-! ## Headers -/

/-- Whether no header has the character in it. -/
def endsHeader (c : Char) : Bool :=
  !isIndent c && !Text.isWord c && c != '\x7b'

section Header

variable {c : Char} (h : endsHeader c = true)
include h

theorem dropWhile_isIndent_append (cs rest : List Char) :
    (cs ++ c :: rest).dropWhile isIndent = cs.dropWhile isIndent ++ c :: rest := by
  have hindent : isIndent c = false := by
    simp only [endsHeader, Bool.and_eq_true, Bool.not_eq_true'] at h
    exact h.1.1
  rw [List.dropWhile_append]
  split
  · rename_i hempty
    simp [List.isEmpty_iff.mp hempty, hindent]
  · rfl

theorem span_isWord_append (cs rest : List Char) :
    (cs ++ c :: rest).takeWhile Text.isWord = cs.takeWhile Text.isWord ∧
      (cs ++ c :: rest).dropWhile Text.isWord = cs.dropWhile Text.isWord ++ c :: rest := by
  have hword : Text.isWord c = false := by
    simp only [endsHeader, Bool.and_eq_true, Bool.not_eq_true'] at h
    exact h.1.2
  induction cs with
  | nil => simp [hword]
  | cons d cs ih =>
    by_cases hd : Text.isWord d = true
    · simp [hd, ih]
    · simp [hd]

omit h in
theorem isPrefixOf?_append {key : List Char} (hkey : c ∉ key) (cs rest : List Char) :
    key.isPrefixOf? (cs ++ c :: rest) = (key.isPrefixOf? cs).map (· ++ c :: rest) := by
  induction key generalizing cs with
  | nil => simp [List.isPrefixOf?]
  | cons k key ih =>
    simp only [List.mem_cons, not_or] at hkey
    cases cs with
    | nil => simp [List.isPrefixOf?, Ne.symm hkey.1]
    | cons d cs =>
      by_cases hd : k = d
      · simp [List.isPrefixOf?, hd, ih hkey.2]
      · simp [List.isPrefixOf?, hd]

theorem afterGap?_append (cs rest : List Char) :
    afterGap? (cs ++ c :: rest) = (afterGap? cs).map (· ++ c :: rest) := by
  cases cs with
  | nil =>
    simp only [endsHeader, Bool.and_eq_true, Bool.not_eq_true'] at h
    simp [afterGap?, h.1.1]
  | cons d cs =>
    by_cases hd : isIndent d = true
    · simp [afterGap?, hd, dropWhile_isIndent_append h]
    · simp [afterGap?, hd]

theorem nameAndBrace?_append (cs rest : List Char) :
    nameAndBrace? (cs ++ c :: rest) =
      (nameAndBrace? cs).map fun (name, tail) => (name, tail ++ c :: rest) := by
  have hbrace : c ≠ '\x7b' := by
    simp only [endsHeader, Bool.and_eq_true, bne_iff_ne] at h
    exact h.2
  obtain ⟨htake, hdrop⟩ := span_isWord_append h cs rest
  simp only [nameAndBrace?, htake, hdrop, dropWhile_isIndent_append h]
  split
  · rfl
  · cases (cs.dropWhile Text.isWord).dropWhile isIndent with
    | nil => simp [hbrace]
    | cons d tail =>
      by_cases hd : d = '\x7b'
      · subst hd
        rfl
      · simp [hd]

/-- A header ends before each character that stands in none. -/
theorem header?_append (cs rest : List Char) :
    header? (cs ++ c :: rest) =
      (header? cs).map fun found => { found with rest := found.rest ++ c :: rest } := by
  have hkey (keyword : Keyword) : c ∉ keyword.text.toList := by
    intro hmem
    have hword : Text.isWord c = true := by
      have hall : keyword.text.toList.all Text.isWord = true := by cases keyword <;> decide
      exact List.all_eq_true.mp hall c hmem
    simp [endsHeader, hword] at h
  simp only [header?, dropWhile_isIndent_append h, List.map_findSome?]
  congr 1
  funext keyword
  rw [Function.comp_apply, isPrefixOf?_append (hkey keyword)]
  cases keyword.text.toList.isPrefixOf? (cs.dropWhile isIndent) with
  | none => rfl
  | some gap =>
    simp only [Option.map_some, Option.bind_eq_bind, Option.bind_some, afterGap?_append h]
    cases afterGap? gap with
    | none => rfl
    | some behind =>
      simp only [Option.map_some, Option.bind_some, nameAndBrace?_append h]
      cases nameAndBrace? behind <;> rfl

theorem headerHere?_append (before cs rest : List Char) :
    headerHere? before (cs ++ c :: rest) =
      (headerHere? before cs).map fun found => { found with rest := found.rest ++ c :: rest } := by
  unfold headerHere?
  split
  · exact header?_append h cs rest
  · rfl

end Header

theorem afterGap?_suffix {cs rest : List Char} (h : afterGap? cs = some rest) : rest <:+ cs := by
  unfold afterGap? at h
  split at h
  · split at h
    · obtain rfl := Option.some.inj h
      exact (List.dropWhile_suffix isIndent).trans (List.suffix_cons _ _)
    · simp at h
  · simp at h

theorem nameAndBrace?_suffix {cs rest : List Char} {name : String}
    (h : nameAndBrace? cs = some (name, rest)) : rest <:+ cs := by
  simp only [nameAndBrace?] at h
  split at h
  · simp at h
  · split at h
    · rename_i heq
      obtain ⟨-, rfl⟩ := Prod.mk.inj (Option.some.inj h)
      have hbrace := heq ▸ List.dropWhile_suffix (l := cs.dropWhile Text.isWord) isIndent
      exact (List.suffix_cons _ _).trans (hbrace.trans (List.dropWhile_suffix Text.isWord))
    · simp at h

/-- What is behind a header is the rest of the text, and the header is not empty. -/
theorem header?_suffix {cs : List Char} {h : Header} (hfound : header? cs = some h) :
    h.rest <:+ cs ∧ h.rest.length < cs.length := by
  obtain ⟨keyword, -, hkeyword⟩ := List.exists_of_findSome?_eq_some hfound
  simp only [bind, Option.bind_eq_some_iff, pure, Option.some.injEq] at hkeyword
  obtain ⟨gap, hgap, behind, hbehind, ⟨name, rest⟩, hrest, rfl⟩ := hkeyword
  have hline : gap <:+ cs := by
    rw [List.isPrefixOf?_eq_some_iff_append_eq] at hgap
    exact (List.suffix_append _ gap).trans (hgap ▸ List.dropWhile_suffix isIndent)
  refine ⟨(nameAndBrace?_suffix hrest).trans ((afterGap?_suffix hbehind).trans hline), ?_⟩
  have hlength := hline.length_le
  have hname := nameAndBrace?_length hrest
  have hgapLength := afterGap?_length hbehind
  dsimp only at hname ⊢
  omega

theorem headerHere?_suffix {before cs : List Char} {h : Header}
    (hhere : headerHere? before cs = some h) : h.rest <:+ cs ∧ h.rest.length < cs.length := by
  unfold headerHere? at hhere
  split at hhere
  · exact header?_suffix hhere
  · simp at hhere

/-! ## Brackets -/

/-- The mode behind a text. `ahead` is the character that follows it. -/
def Mode.through (comments : Bool) : Mode → List Char → (ahead : Option Char) → Mode
  | mode, [], _ => mode
  | mode, c :: cs, ahead => (mode.after comments c (cs.head?.or ahead)).through comments cs ahead

section Brackets

variable {b : Brackets} {mode : Mode} {depth : Int} {cs : List Char} {n : Nat}

/-- One character of the search for a closing bracket. -/
theorem closingFrom_cons (b : Brackets) (mode : Mode) (depth : Int) (c : Char) (cs : List Char) :
    closingFrom b mode depth (c :: cs) =
      if mode = .code ∧ c = b.closing ∧ b.depthAfter depth c = 0 then some 0
      else (closingFrom b (mode.after b.comments c cs.head?)
        (if mode = .code then b.depthAfter depth c else depth) cs).map (· + 1) := by
  rw [closingFrom]
  by_cases hmode : mode = .code <;> simp [hmode]

/-- A bracket that is closed in a text is closed there whatever follows. -/
theorem closingFrom_append_some (h : closingFrom b mode depth cs = some n) (rest : List Char) :
    closingFrom b mode depth (cs ++ rest) = some n := by
  induction cs generalizing mode depth n with
  | nil => simp [closingFrom] at h
  | cons c cs ih =>
    rw [closingFrom_cons] at h
    rw [List.cons_append, closingFrom_cons]
    split at h
    · rename_i hends
      rwa [if_pos hends]
    · rename_i hgoes
      rw [if_neg hgoes]
      obtain ⟨k, hk, rfl⟩ := Option.map_eq_some_iff.mp h
      cases cs with
      | nil => simp [closingFrom] at hk
      | cons d cs => exact congrArg (Option.map (· + 1)) (ih hk)

/-- The search for a bracket that is not closed in a text goes on behind the text. -/
theorem closingFrom_append_none (h : closingFrom b mode depth cs = none) :
    ∃ depth', ∀ rest, closingFrom b mode depth (cs ++ rest) =
      (closingFrom b (mode.through b.comments cs rest.head?) depth' rest).map (· + cs.length) := by
  induction cs generalizing mode depth with
  | nil => exact ⟨depth, fun rest => by simp [Mode.through]⟩
  | cons c cs ih =>
    rw [closingFrom_cons] at h
    split at h
    · simp at h
    rename_i hgoes
    have hnext := Option.map_eq_none_iff.mp h
    have hstep (rest : List Char) : closingFrom b mode depth (c :: (cs ++ rest)) =
        (closingFrom b (mode.after b.comments c (cs.head?.or rest.head?))
          (if mode = .code then b.depthAfter depth c else depth) (cs ++ rest)).map (· + 1) := by
      rw [closingFrom_cons, if_neg hgoes, List.head?_append]
    cases cs with
    | nil => exact ⟨_, fun rest => hstep rest⟩
    | cons d cs =>
      obtain ⟨depth', hdepth⟩ := ih hnext
      refine ⟨depth', fun rest => ?_⟩
      have hrest := congrArg (Option.map (· + 1)) (hdepth rest)
      rw [Option.map_map] at hrest
      rw [List.cons_append, hstep]
      exact hrest.trans (by simp [Mode.through, Function.comp_def, Nat.add_assoc])

theorem closing?_pos {rest : List Char} (hne : b.opening ≠ b.closing)
    (h : closing? b (b.opening :: rest) = some n) : 0 < n := by
  rw [closing?, closingFrom_cons, if_neg fun hends => hne hends.2.1] at h
  obtain ⟨k, -, rfl⟩ := Option.map_eq_some_iff.mp h
  exact Nat.succ_pos k

end Brackets

/-! ## Texts one after the other -/

variable {path : Option String}

theorem found_of_unclosed {h : Header} (hclosing : closing? braces (braces.opening :: h.rest) = none)
    (before : List Char) (length : Nat) : h.found path before length =
      (.unclosed h.keyword h.name (before.count '\n' + 1) path, length) := by
  simp [Header.found, hclosing]

theorem length_found {h : Header} {n : Nat}
    (hclosing : closing? braces (braces.opening :: h.rest) = some n) (before : List Char)
    (length : Nat) : (h.found path before length).2 = length + n := by
  simp [Header.found, hclosing]

theorem scanFrom_some (path : Option String) {before cs : List Char} {c : Char} {h : Header}
    (hhere : headerHere? before (c :: cs) = some h) :
    scanFrom path 0 before (c :: cs) = (h.found path before (cs.length + 1 - h.rest.length)).1 ::
      scanFrom path ((h.found path before (cs.length + 1 - h.rest.length)).2 - 1) (c :: before) cs := by
  rw [scanFrom, hhere]

/-- What is found is opened by a header behind what is already used. -/
theorem exists_header_of_mem {skip : Nat} {before cs : List Char} {f : Found}
    (h : f ∈ scanFrom path skip before cs) : ∃ above rest header,
      headerHere? above rest = some header ∧ before.length + skip ≤ above.length ∧
        f = (header.found path above (rest.length - header.rest.length)).1 := by
  induction cs generalizing skip before with
  | nil => simp [scanFrom] at h
  | cons c cs ih =>
    have hlater {skip' : Nat} (hskip : skip ≤ skip' + 1)
        (hmem : f ∈ scanFrom path skip' (c :: before) cs) :
        ∃ above rest header, headerHere? above rest = some header ∧
          before.length + skip ≤ above.length ∧
            f = (header.found path above (rest.length - header.rest.length)).1 := by
      obtain ⟨above, rest, header, hhere, hplace, hf⟩ := ih hmem
      rw [List.length_cons] at hplace
      exact ⟨above, rest, header, hhere, by omega, hf⟩
    cases skip with
    | succ skip => exact hlater (Nat.le_refl _) h
    | zero =>
      cases hhere : headerHere? before (c :: cs) with
      | none => exact hlater (Nat.zero_le _) (scanFrom_none path hhere ▸ h)
      | some header =>
        rw [scanFrom_some path hhere] at h
        rcases List.mem_cons.mp h with rfl | h
        · exact ⟨before, c :: cs, header, hhere, Nat.le_refl _, rfl⟩
        · exact hlater (Nat.zero_le _) h

/-- What a header opens in a text, it opens if more follows. -/
theorem found_append {h : Header} {n : Nat}
    (hclosing : closing? braces (braces.opening :: h.rest) = some n) (rest before : List Char)
    (length : Nat) : { h with rest := h.rest ++ rest }.found path before length =
      h.found path before length := by
  have hlong : closing? braces (braces.opening :: (h.rest ++ rest)) = some n :=
    closingFrom_append_some hclosing rest
  have hlt := closing?_lt hclosing
  simp only [List.length_cons] at hlt
  have htake : (h.rest ++ rest).take (n - 1) = h.rest.take (n - 1) :=
    List.take_append_of_le_length (by omega)
  simp [Header.found, hclosing, hlong, htake]

/-- A header in a text is the same if more follows behind a character that stands in no header. -/
theorem headerHere?_append_text {cs : List Char} (hne : cs ≠ [])
    (hlast : ∀ c ∈ cs.getLast?, endsHeader c = true) (before rest : List Char) :
    headerHere? before (cs ++ rest) =
      (headerHere? before cs).map fun h => { h with rest := h.rest ++ rest } := by
  obtain ⟨front, c, rfl⟩ := (List.eq_nil_or_concat cs).resolve_left hne
  have hc : endsHeader c = true := hlast c (by simp)
  rw [List.concat_eq_append, List.append_assoc, List.singleton_append,
    headerHere?_append hc before front rest, headerHere?_append hc before front []]
  cases headerHere? before front <;> simp

/-- A scan that leaves no header open in a text comes to what follows the text. -/
theorem scanFrom_append {skip : Nat} {before cs : List Char}
    (hlast : ∀ c ∈ cs.getLast?, endsHeader c = true)
    (hclosed : ∀ f ∈ scanFrom path skip before cs, f.fault? = none) (rest : List Char) :
    scanFrom path skip before (cs ++ rest) = scanFrom path skip before cs ++
      scanFrom path (skip - cs.length) (cs.reverse ++ before) rest := by
  induction cs generalizing skip before with
  | nil => simp [scanFrom]
  | cons d cs ih =>
    have hlaterLast : ∀ c ∈ cs.getLast?, endsHeader c = true := by
      cases cs with
      | nil => simp
      | cons e cs => simpa using hlast
    have hbefore : (d :: cs).reverse ++ before = cs.reverse ++ d :: before := by simp
    rw [hbefore, List.length_cons]
    cases skip with
    | succ skip =>
      rw [scanFrom] at hclosed ⊢
      rw [List.cons_append, scanFrom, ih hlaterLast hclosed, Nat.add_sub_add_right]
    | zero =>
      have hhere := headerHere?_append_text (by simp) hlast before rest
      rw [List.cons_append] at hhere ⊢
      cases hheader : headerHere? before (d :: cs) with
      | none =>
        rw [hheader, Option.map_none] at hhere
        rw [scanFrom_none path hheader] at hclosed ⊢
        rw [scanFrom_none path hhere, ih hlaterLast hclosed]
        simp
      | some h =>
        rw [hheader, Option.map_some] at hhere
        rw [scanFrom_some path hheader] at hclosed ⊢
        rw [scanFrom_some path hhere]
        cases hclosing : closing? braces (braces.opening :: h.rest) with
        | none => simp [found_of_unclosed hclosing, Found.fault?] at hclosed
        | some n =>
          have hheaderLength := (headerHere?_suffix hheader).2
          have hbraceLength := closing?_lt hclosing
          simp only [List.length_cons] at hheaderLength hbraceLength
          have hsame : (cs ++ rest).length + 1 - (h.rest ++ rest).length =
              cs.length + 1 - h.rest.length := by
            simp only [List.length_append]
            omega
          have hinside :
              (h.found path before (cs.length + 1 - h.rest.length)).2 - 1 - cs.length = 0 := by
            rw [length_found hclosing]
            omega
          rw [hsame, found_append hclosing,
            ih hlaterLast fun f hf => hclosed f (List.mem_cons_of_mem _ hf), hinside]
          simp

/-! ## Lines and places further down -/

/-- The block, further down. -/
def Block.lowered (lines places : Nat) (b : Block) : Block :=
  { b with line := b.line + lines, start := b.start + places, stop := b.stop + places }

/-- What is found, further down. -/
def Found.lowered (lines places : Nat) : Found → Found
  | .block b => .block (b.lowered lines places)
  | .unclosed keyword name line path => .unclosed keyword name (line + lines) path

/-- Whether a scan goes on below `above'` as it does below `above`, so many lines and places further down.
Both texts are given in reverse. -/
structure IsLower (lines places : Nat) (above above' : List Char) : Prop where
  start : above'.head?.all (· == '\n') = above.head?.all (· == '\n')
  lines : above'.count '\n' = above.count '\n' + lines
  places : above'.length = above.length + places
  docs : ∀ cs, docAtEnd (above'.reverse ++ cs) = docAtEnd (above.reverse ++ cs)

section Lower

variable {lines places : Nat} {above above' : List Char}

theorem IsLower.cons (h : IsLower lines places above above') (c : Char) :
    IsLower lines places (c :: above) (c :: above') where
  start := rfl
  lines := by
    rw [List.count_cons, List.count_cons, h.lines]
    omega
  places := by
    rw [List.length_cons, List.length_cons, h.places]
    omega
  docs cs := by simpa using h.docs (c :: cs)

theorem IsLower.found (h : IsLower lines places above above') (header : Header) (length : Nat) :
    header.found path above' length =
      ((header.found path above length).1.lowered lines places,
        (header.found path above length).2) := by
  cases hclosing : closing? braces (braces.opening :: header.rest) with
  | none =>
    simp only [found_of_unclosed hclosing, Found.lowered, h.lines]
    rw [Nat.add_right_comm]
  | some n =>
    have hpos := closing?_pos (by decide) hclosing
    have hdocs : docAtEnd above'.reverse = docAtEnd above.reverse := by simpa using h.docs []
    have hstop : above.length + places + length + n - 1 = above.length + length + n - 1 + places := by
      omega
    simp only [Header.found, hclosing, Found.lowered, Block.lowered, h.lines, h.places, hdocs, hstop]
    rw [Nat.add_right_comm]

/-- A scan depends on what is above it only in lines, places and documentation. -/
theorem IsLower.scanFrom (path : Option String) (h : IsLower lines places above above') (skip : Nat)
    (cs : List Char) :
    scanFrom path skip above' cs = (scanFrom path skip above cs).map (Found.lowered lines places) := by
  induction cs generalizing skip above above' with
  | nil => simp [Prisma.scanFrom]
  | cons c cs ih =>
    cases skip with
    | succ skip => exact ih (h.cons c) skip
    | zero =>
      have hsame : headerHere? above' (c :: cs) = headerHere? above (c :: cs) := by
        simp only [headerHere?, h.start]
      cases hheader : headerHere? above (c :: cs) with
      | none =>
        rw [scanFrom_none path hheader, scanFrom_none path (hsame.trans hheader)]
        exact ih (h.cons c) 0
      | some header =>
        rw [scanFrom_some path hheader, scanFrom_some path (hsame.trans hheader), h.found, List.map_cons]
        exact congrArg _ (ih (h.cons c) _)

end Lower

/-! ## Documentation above a header -/

/-- Documentation above a header ends at a line that is none. -/
theorem docLines_append {lines above : List (List Char)}
    (h : (∃ line ∈ lines, docLine? line = none) ∨ ∀ line ∈ above.head?, docLine? line = none) :
    docLines (lines ++ above) = docLines lines := by
  induction lines with
  | nil =>
    cases above with
    | nil => rfl
    | cons line above =>
      have hline : docLine? line = none := by simpa using h
      simp [docLines, hline]
  | cons line lines ih =>
    cases hline : docLine? line with
    | none => simp [docLines, hline]
    | some doc =>
      have hrest : (∃ line ∈ lines, docLine? line = none) ∨
          ∀ line ∈ above.head?, docLine? line = none := by simpa [hline] using h
      simp [docLines, hline, ih hrest]

/-- Whether the text is empty or ends with a line feed. -/
def endsLine (cs : List Char) : Bool :=
  cs.getLast?.all (· == '\n')

theorem docAtEnd_append {front : List Char} (hfeed : endsLine front = true)
    {cs : List Char} (h : (∃ line ∈ Text.splitLines cs, docLine? line = none) ∨
      ∀ line ∈ (Text.splitLines front).getLast?, docLine? line = none) :
    docAtEnd (front ++ cs) = docAtEnd cs := by
  have hlines : Text.splitLines (front ++ cs) = Text.splitLines front ++ Text.splitLines cs := by
    rcases List.eq_nil_or_concat front with rfl | ⟨front, c, rfl⟩
    · simp
    · obtain rfl : c = '\n' := by simpa [endsLine] using hfeed
      simpa using Text.splitLines_append_feed front cs
  have hdocs : docLines (Text.splitLines (front ++ cs)).reverse =
      docLines (Text.splitLines cs).reverse := by
    rw [hlines, List.reverse_append]
    exact docLines_append (by simpa [List.head?_reverse] using h)
  rw [docAtEnd, docAtEnd, hdocs]

/-! ## What a lower block holds -/

theorem partition_fst {α ε : Type} (xs : List (Except ε α)) :
    (partition xs).1 = xs.filterMap Except.toOption := by
  induction xs with
  | nil => rfl
  | cons x xs ih =>
    cases x with
    | ok a => simp [partition, Except.toOption, ih]
    | error e => rw [partition, ih, List.filterMap_cons_none rfl]

/-- The number of a line does not matter to the fields. -/
theorem fieldsOfLines_toOption (enums : List RawEnum) (number number' : Nat) (docs : List String)
    (lines : List (List Char)) : (fieldsOfLines enums number docs lines).toOption =
      (fieldsOfLines enums number' docs lines).toOption := by
  induction lines generalizing number number' docs with
  | nil => rfl
  | cons line lines ih =>
    rw [fieldsOfLines, fieldsOfLines]
    cases docLine? line with
    | some doc => exact ih _ _ _
    | none =>
      cases FieldLine.ofLine line (descriptionOf docs) with
      | error fault => rfl
      | ok field? =>
        cases field? with
        | none => exact ih _ _ _
        | some field =>
          have hrest := ih (number + 1) (number' + 1) []
          cases h : fieldsOfLines enums (number + 1) [] lines <;>
            cases h' : fieldsOfLines enums (number' + 1) [] lines <;>
            simp_all [Except.map, Except.toOption]

theorem modelOfBlock_lowered (lines places : Nat) (enums : List RawEnum) (b : Block) :
    (modelOfBlock enums (b.lowered lines places)).toOption = (modelOfBlock enums b).toOption := by
  have hfields := fieldsOfLines_toOption enums (b.line + lines) b.line [] (Text.splitLines b.body)
  simp only [modelOfBlock, Block.lowered]
  cases h : fieldsOfLines enums (b.line + lines) [] (Text.splitLines b.body) <;>
    cases h' : fieldsOfLines enums b.line [] (Text.splitLines b.body) <;>
    simp_all [Except.toOption]

theorem block?_lowered (lines places : Nat) (found : List Found) :
    (found.map (Found.lowered lines places)).filterMap Found.block? =
      (found.filterMap Found.block?).map (Block.lowered lines places) := by
  rw [List.filterMap_map, List.map_filterMap]
  congr 1
  funext f
  cases f <;> rfl

/-- The enums of the blocks that can be read. -/
def enumsOf (blocks : List Block) : List RawEnum :=
  (blocks.filter fun b => b.keyword == .enum).filterMap fun b => (enumOfBlock b).toOption

/-- The models of the blocks that can be read. -/
def modelsOf (enums : List RawEnum) (blocks : List Block) : List RawModel :=
  (blocks.filter fun b => b.keyword.declaresFields).filterMap fun b =>
    (modelOfBlock enums b).toOption

theorem enumsOf_append (blocks more : List Block) :
    enumsOf (blocks ++ more) = enumsOf blocks ++ enumsOf more := by
  simp [enumsOf]

theorem modelsOf_append (enums : List RawEnum) (blocks more : List Block) :
    modelsOf enums (blocks ++ more) = modelsOf enums blocks ++ modelsOf enums more := by
  simp [modelsOf]

theorem enumsOf_lowered (lines places : Nat) (blocks : List Block) :
    enumsOf (blocks.map (Block.lowered lines places)) = enumsOf blocks := by
  simp only [enumsOf, List.filter_map, List.filterMap_map]
  rfl

theorem modelsOf_lowered (lines places : Nat) (enums : List RawEnum) (blocks : List Block) :
    modelsOf enums (blocks.map (Block.lowered lines places)) = modelsOf enums blocks := by
  have hmodel : (fun b => (modelOfBlock enums b).toOption) ∘ Block.lowered lines places =
      fun b => (modelOfBlock enums b).toOption :=
    funext (modelOfBlock_lowered lines places enums)
  simp only [modelsOf, List.filter_map, List.filterMap_map, hmodel]
  rfl

theorem Schema.ofSources_enums (sources : List Source) : (Schema.ofSources sources).enums =
    enumsOf ((scanAll sources).filterMap Found.block?) := by
  simp only [Schema.ofSources, enumsOf, partition_fst, List.filterMap_map]
  rfl

theorem Schema.ofSources_models (sources : List Source) : (Schema.ofSources sources).models =
    modelsOf (Schema.ofSources sources).enums ((scanAll sources).filterMap Found.block?) := by
  simp only [Schema.ofSources, modelsOf, partition_fst, List.filterMap_map]
  rfl

/-! ## Joined texts -/

theorem endsHeader_of_endsLine {cs : List Char} (h : endsLine cs = true) :
    ∀ c ∈ cs.getLast?, endsHeader c = true := by
  intro c hc
  obtain rfl : c = '\n' := by simpa [endsLine, Option.mem_def.mp hc] using h
  decide

/-- A text goes on as it starts behind whole lines, if these do not end with documentation. -/
theorem isLower_of_endsLine {cs : List Char} (hlines : endsLine cs = true)
    (hdoc : ∀ line ∈ (Text.splitLines cs).getLast?, docLine? line = none) :
    IsLower (cs.count '\n') cs.length [] cs.reverse where
  start := by simpa [List.head?_reverse, endsLine] using hlines
  lines := by simp
  places := by simp
  docs rest := by simpa using docAtEnd_append hlines (Or.inr hdoc)

/-- A schema that falls into two texts at the end of a line, of which the first one leaves no header open and
does not end with documentation, is found as the two texts are, the second one with its lines and places
counted on. So it holds the models and enums of the two texts as two sources. -/
theorem scan_joined (path : Option String) {front : List Char} (hlines : endsLine front = true)
    (hclosed : ∀ f ∈ scan path front, f.fault? = none)
    (hdoc : ∀ line ∈ (Text.splitLines front).getLast?, docLine? line = none) (rest : List Char) :
    scan path (front ++ rest) = scan path front ++
        (scan path rest).map (Found.lowered (front.count '\n') front.length) ∧
      (Schema.ofSources [⟨path, front ++ rest⟩]).enums =
        (Schema.ofSources [⟨path, front⟩, ⟨path, rest⟩]).enums ∧
      (Schema.ofSources [⟨path, front ++ rest⟩]).models =
        (Schema.ofSources [⟨path, front⟩, ⟨path, rest⟩]).models := by
  have hscan : scan path (front ++ rest) = scan path front ++
      (scan path rest).map (Found.lowered (front.count '\n') front.length) := by
    have hlater := (isLower_of_endsLine hlines hdoc).scanFrom path 0 rest
    have happend := scanFrom_append (endsHeader_of_endsLine hlines) hclosed rest
    rw [Nat.zero_sub, List.append_nil, hlater] at happend
    exact happend
  -- Both schemas have the blocks of the two texts, apart from lines and places.
  have hjoined : (scanAll [⟨path, front ++ rest⟩]).filterMap Found.block? =
      (scan path front).filterMap Found.block? ++
        ((scan path rest).filterMap Found.block?).map
          (Block.lowered (front.count '\n') front.length) := by
    simp [scanAll, hscan, List.filterMap_append, ← block?_lowered]
  have hapart : (scanAll [⟨path, front⟩, ⟨path, rest⟩]).filterMap Found.block? =
      (scan path front).filterMap Found.block? ++ (scan path rest).filterMap Found.block? := by
    simp [scanAll]
  have henums : (Schema.ofSources [⟨path, front ++ rest⟩]).enums =
      (Schema.ofSources [⟨path, front⟩, ⟨path, rest⟩]).enums := by
    rw [Schema.ofSources_enums, Schema.ofSources_enums, hjoined, hapart, enumsOf_append,
      enumsOf_append, enumsOf_lowered]
  refine ⟨hscan, henums, ?_⟩
  rw [Schema.ofSources_models, Schema.ofSources_models, hjoined, hapart, henums, modelsOf_append,
    modelsOf_append, modelsOf_lowered]

/-- A model with its documentation, on four lines. -/
def userText : List Char := "/// A user\nmodel User \x7b\n  role Role\n\x7d\n".toList

/-- An enum, and a header that is left open. -/
def roleText : List Char := "enum Role \x7b\n  A\n\x7d\nmodel Post \x7b\n  id Int\n".toList

theorem scan_joined_user : endsLine userText = true ∧
    scan none (userText ++ roleText) =
      scan none userText ++ (scan none roleText).map (Found.lowered 4 (userText.length)) ∧
    (scan none (userText ++ roleText)).filterMap Found.fault? = [.unclosed .model "Post" 8 none] ∧
    (Schema.ofSources [⟨none, userText ++ roleText⟩]).enums =
      (Schema.ofSources [⟨none, userText⟩, ⟨none, roleText⟩]).enums := by
  have hlines : endsLine userText = true := by decide +kernel
  have hjoined := scan_joined none hlines (by decide +kernel) (by decide +kernel) roleText
  exact ⟨hlines, hjoined.1, by decide +kernel, hjoined.2.1⟩

end SchemaTypes.Prisma
