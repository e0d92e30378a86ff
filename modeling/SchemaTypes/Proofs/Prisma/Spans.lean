import SchemaTypes.Proofs.Prisma.Groups

/-!
# Where blocks stand

A scan goes on behind a block that it has found, and behind the brace of a header that opens none. So it
passes over no header but those inside of blocks: a header stands at the start of a line and ends on the
same line, and no header starts with the brace that ends a block. Each header of a text is that of one block
or is reported as left open, or it stands inside of one block.

The proof follows the places to which the scan comes. From each of them on it accounts once for each header
that is still ahead and for none that is behind (`timesAccounted_scanAt`).

Results:
* `header?_eq_some_iff`: what a header looks like.
* `scanAt_induction`: induction over the places to which a scan comes.
* `timesAccounted_scanAt`: a scan accounts once for each header ahead of it.
* `headers_accounted`: blocks stand one after the other, their bodies are what is between their braces, and
  every header is accounted for once.
-/

namespace SchemaTypes.Prisma

/-! ## Headers -/

theorem isIndent_iff {c : Char} : isIndent c = true ↔ c = ' ' ∨ c = '\t' := by
  simp [isIndent]

theorem isWord_of_isIndent {c : Char} (h : isIndent c = true) : Text.isWord c = false := by
  rcases isIndent_iff.mp h with rfl | rfl <;> decide

theorem isIndent_of_isWord {c : Char} (h : Text.isWord c = true) : isIndent c = false := by
  rw [← Bool.not_eq_true]
  intro hindent
  simp [isWord_of_isIndent hindent] at h

theorem dropWhile_isIndent {pad rest : List Char} (hpad : ∀ c ∈ pad, isIndent c = true)
    (hrest : ∀ c ∈ rest.head?, isIndent c = false) : (pad ++ rest).dropWhile isIndent = rest := by
  rw [List.dropWhile_append_of_pos hpad]
  cases rest with
  | nil => rfl
  | cons c rest => simp [hrest c rfl]

theorem afterGap?_eq_some_iff {cs rest : List Char} : afterGap? cs = some rest ↔
    (∃ gap, gap ≠ [] ∧ (∀ c ∈ gap, isIndent c = true) ∧ cs = gap ++ rest) ∧
      ∀ c ∈ rest.head?, isIndent c = false := by
  unfold afterGap?
  cases cs with
  | nil => simp
  | cons c cs =>
    dsimp only
    rw [Option.ite_none_right_eq_some, Option.some.injEq]
    constructor
    · rintro ⟨hc, rfl⟩
      refine ⟨⟨c :: cs.takeWhile isIndent, by simp, ?_, by simp⟩, fun d hd => ?_⟩
      · rw [List.forall_mem_cons]
        exact ⟨hc, List.all_eq_true.mp List.all_takeWhile⟩
      · have hhead := List.head?_dropWhile_not isIndent cs
        rw [Option.mem_def.mp hd] at hhead
        simpa using hhead
    · rintro ⟨⟨gap, hne, hgap, htext⟩, hrest⟩
      obtain ⟨d, gap, rfl⟩ := List.exists_cons_of_ne_nil hne
      obtain ⟨rfl, rfl⟩ := List.cons.inj htext
      rw [List.forall_mem_cons] at hgap
      exact ⟨hgap.1, dropWhile_isIndent hgap.2 hrest⟩

theorem nameAndBrace?_eq_some_iff {cs rest : List Char} {name : String} :
    nameAndBrace? cs = some (name, rest) ↔ Text.isName name = true ∧
      ∃ gap, (∀ c ∈ gap, isIndent c = true) ∧ cs = name.toList ++ (gap ++ '\x7b' :: rest) := by
  have hsplit := List.takeWhile_append_dropWhile (p := Text.isWord) (l := cs)
  constructor
  · intro h
    simp only [nameAndBrace?] at h
    split at h
    · simp at h
    rename_i hname
    split at h
    · rename_i tail hbrace
      obtain ⟨rfl, rfl⟩ := Prod.mk.inj (Option.some.inj h)
      have hgap := List.takeWhile_append_dropWhile (p := isIndent) (l := cs.dropWhile Text.isWord)
      refine ⟨Text.isName_iff.mpr ⟨by simpa using hname, ?_⟩, _,
        List.all_eq_true.mp (List.all_takeWhile (p := isIndent) (l := cs.dropWhile Text.isWord)), ?_⟩
      · rw [String.toList_ofList]
        exact List.all_eq_true.mp List.all_takeWhile
      · rw [String.toList_ofList, ← hbrace, hgap, hsplit]
    · simp at h
  · rintro ⟨hname, gap, hgap, rfl⟩
    have hhead : ∀ c ∈ (gap ++ '\x7b' :: rest).head?, Text.isWord c = false := by
      cases gap with
      | nil => simp; decide
      | cons d gap => simpa using isWord_of_isIndent (hgap d List.mem_cons_self)
    have hbrace : (gap ++ '\x7b' :: rest).dropWhile isIndent = '\x7b' :: rest :=
      dropWhile_isIndent hgap (by simp; decide)
    simp [nameAndBrace?, takeWhile_name hname hhead, dropWhile_name hname hhead, hbrace,
      (Text.isName_iff.mp hname).1]

theorem isPrefixOf?_keyword_indent {c : Char} (h : isIndent c = true) (other keyword : Keyword)
    (rest : List Char) : other.text.toList.isPrefixOf? (keyword.text.toList ++ c :: rest) =
      if other = keyword then some (c :: rest) else none := by
  rcases isIndent_iff.mp h with rfl | rfl <;> cases other <;> cases keyword <;> rfl

/-- A header is a keyword, a name and an opening brace, with blanks between and before them. Between the
keyword and the name there is at least one. -/
theorem header?_eq_some_iff {cs rest : List Char} {keyword : Keyword} {name : String} :
    header? cs = some ⟨keyword, name, rest⟩ ↔ Text.isName name = true ∧
      ∃ pad gap gap', (∀ c ∈ pad, isIndent c = true) ∧ gap ≠ [] ∧ (∀ c ∈ gap, isIndent c = true) ∧
        (∀ c ∈ gap', isIndent c = true) ∧
        cs = pad ++ (keyword.text.toList ++ (gap ++ (name.toList ++ (gap' ++ '\x7b' :: rest)))) := by
  constructor
  · intro h
    obtain ⟨found, -, hfound⟩ := List.exists_of_findSome?_eq_some h
    simp only [bind, Option.bind_eq_some_iff, pure, Option.some.injEq, Header.mk.injEq] at hfound
    obtain ⟨line, hline, behind, hbehind, ⟨foundName, tail⟩, hname, rfl, rfl, rfl⟩ := hfound
    rw [List.isPrefixOf?_eq_some_iff_append_eq] at hline
    obtain ⟨⟨gap, hne, hgap, rfl⟩, -⟩ := afterGap?_eq_some_iff.mp hbehind
    obtain ⟨hword, gap', hgap', rfl⟩ := nameAndBrace?_eq_some_iff.mp hname
    refine ⟨hword, cs.takeWhile isIndent, gap, gap', List.all_eq_true.mp List.all_takeWhile, hne, hgap,
      hgap', ?_⟩
    rw [hline, List.takeWhile_append_dropWhile]
  · rintro ⟨hname, pad, gap, gap', hpad, hne, hgap, hgap', rfl⟩
    obtain ⟨c, gap, rfl⟩ := List.exists_cons_of_ne_nil hne
    have hline : (pad ++ (keyword.text.toList ++ (c :: gap ++ (name.toList ++ (gap' ++ '\x7b' :: rest))))
        ).dropWhile isIndent =
        keyword.text.toList ++ c :: (gap ++ (name.toList ++ (gap' ++ '\x7b' :: rest))) := by
      refine dropWhile_isIndent hpad ?_
      cases keyword <;> simp [Keyword.text] <;> decide
    have hbehind : afterGap? (c :: (gap ++ (name.toList ++ (gap' ++ '\x7b' :: rest)))) =
        some (name.toList ++ (gap' ++ '\x7b' :: rest)) := by
      refine afterGap?_eq_some_iff.mpr ⟨⟨c :: gap, hne, hgap, rfl⟩, ?_⟩
      obtain ⟨d, word, hword, hd⟩ := exists_cons_of_isName hname
      simpa [hword] using isIndent_of_isWord hd
    have hrest : nameAndBrace? (name.toList ++ (gap' ++ '\x7b' :: rest)) = some (name, rest) :=
      nameAndBrace?_eq_some_iff.mpr ⟨hname, gap', hgap', rfl⟩
    have hc : isIndent c = true := hgap c List.mem_cons_self
    simp only [header?, hline, isPrefixOf?_keyword_indent hc]
    cases keyword <;> simp [Keyword.all, hbehind, hrest]

/-- Before the brace of a header stand only blanks and words. -/
theorem exists_front_of_header? {cs : List Char} {h : Header} (hfound : header? cs = some h) :
    ∃ front, cs = front ++ braces.opening :: h.rest ∧
      ∀ c ∈ front, isIndent c = true ∨ Text.isWord c = true := by
  obtain ⟨keyword, name, rest⟩ := h
  obtain ⟨hname, pad, gap, gap', hpad, -, hgap, hgap', rfl⟩ := header?_eq_some_iff.mp hfound
  have hkeyword : ∀ c ∈ keyword.text.toList, Text.isWord c = true :=
    List.all_eq_true.mp (by cases keyword <;> decide)
  have hword := (Text.isName_iff.mp hname).2
  refine ⟨pad ++ (keyword.text.toList ++ (gap ++ (name.toList ++ gap'))), by simp [braces], ?_⟩
  intro c hc
  simp only [List.mem_append] at hc
  rcases hc with hc | hc | hc | hc | hc
  · exact .inl (hpad c hc)
  · exact .inr (hkeyword c hc)
  · exact .inl (hgap c hc)
  · exact .inr (hword c hc)
  · exact .inl (hgap' c hc)

/-! ## Places of a scan -/

/-- Whether a line of the text starts at the place. -/
def StartsLine (text : List Char) (p : Nat) : Prop :=
  p = 0 ∨ text[p - 1]? = some '\n'

/-- Whether the header stands at the place: a line starts there, and it starts with the header. -/
def HeaderAt (text : List Char) (p : Nat) (h : Header) : Prop :=
  StartsLine text p ∧ header? (text.drop p) = some h

/-- The number of the line on which a place is. -/
def lineAt (text : List Char) (p : Nat) : Nat :=
  (text.take p).count '\n' + 1

section Places

variable {text : List Char} {p q : Nat} {h : Header}

theorem HeaderAt.lt_length (hp : HeaderAt text p h) : p < text.length := by
  have hlength := (header?_suffix hp.2).2
  rw [List.length_drop] at hlength
  omega

theorem HeaderAt.unique {g : Header} (hg : HeaderAt text p g) (hh : HeaderAt text p h) : g = h :=
  Option.some.inj (hg.2.symm.trans hh.2)

theorem headerHere?_eq_some_iff :
    headerHere? (text.take p).reverse (text.drop p) = some h ↔ HeaderAt text p h := by
  have hstart (hlt : p < text.length) :
      (text.take p).reverse.head?.all (· == '\n') = true ↔ StartsLine text p := by
    rw [List.head?_reverse, List.getLast?_take, StartsLine]
    by_cases hzero : p = 0
    · simp [hzero]
    · rw [List.getElem?_eq_getElem (show p - 1 < text.length by omega)]
      simp [hzero]
  unfold headerHere?
  rw [Option.ite_none_right_eq_some]
  constructor
  · rintro ⟨hline, hheader⟩
    have hlength := (header?_suffix hheader).2
    rw [List.length_drop] at hlength
    exact ⟨(hstart (by omega)).mp hline, hheader⟩
  · intro hp
    exact ⟨(hstart hp.lt_length).mpr hp.1, hp.2⟩

/-- Lines that start at different places have different numbers. -/
theorem lineAt_lt (hpq : p < q) (hq : StartsLine text q) : lineAt text p < lineAt text q := by
  obtain ⟨k, rfl⟩ : ∃ k, q = k + 1 := ⟨q - 1, by omega⟩
  have hfeed : text[k]? = some '\n' := hq.resolve_left (by omega)
  have hfront : text.take p <+: text.take k := List.take_prefix_take_left (by omega)
  have hcount := hfront.sublist.count_le '\n'
  rw [lineAt, lineAt, List.take_add_one, hfeed]
  simp
  omega

/-- No line starts inside of a header. -/
theorem HeaderAt.no_start (hp : HeaderAt text p h) (hpq : p < q)
    (hq : q < text.length - h.rest.length) : ¬StartsLine text q := by
  intro hstart
  obtain ⟨front, hfront, hwords⟩ := exists_front_of_header? hp.2
  have hlength := congrArg List.length hfront
  simp only [List.length_drop, List.length_append, List.length_cons] at hlength
  have hlt := hp.lt_length
  have hplace : text[q - 1]? = front[q - 1 - p]? := by
    have hdrop := congrArg (·[q - 1 - p]?) hfront
    simp only [List.getElem?_drop] at hdrop
    rw [List.getElem?_append_left (by omega)] at hdrop
    rwa [show p + (q - 1 - p) = q - 1 by omega] at hdrop
  have hmem := List.mem_of_getElem? (hplace ▸ hstart.resolve_left (by omega))
  exact absurd (hwords _ hmem) (by decide)

/-- What a header of the text opens, and the length of what is found. -/
def foundAt (path : Option String) (text : List Char) (p : Nat) (h : Header) : Found × Nat :=
  h.found path (text.take p).reverse (text.length - p - h.rest.length)

/-- The scan of a text from a place on. -/
def scanAt (path : Option String) (text : List Char) (p : Nat) : List Found :=
  scanFrom path 0 (text.take p).reverse (text.drop p)

variable (path : Option String)

theorem scanAt_zero : scanAt path text 0 = scan path text := rfl

theorem scanAt_end (hp : text.length ≤ p) : scanAt path text p = [] := by
  rw [scanAt, List.drop_eq_nil_of_le hp, scanFrom]

theorem reverse_take_add_one (hp : p < text.length) :
    (text.take (p + 1)).reverse = text[p] :: (text.take p).reverse := by
  rw [List.take_add_one, List.getElem?_eq_getElem hp]
  simp

theorem scanAt_none (hp : p < text.length) (hnone : ∀ h, ¬HeaderAt text p h) :
    scanAt path text p = scanAt path text (p + 1) := by
  have hhere : headerHere? (text.take p).reverse (text.drop p) = none :=
    Option.eq_none_iff_forall_ne_some.mpr fun h heq => hnone h (headerHere?_eq_some_iff.mp heq)
  rw [List.drop_eq_getElem_cons hp] at hhere
  rw [scanAt, scanAt, List.drop_eq_getElem_cons hp, scanFrom_none path hhere, reverse_take_add_one hp]

/-- A header is not empty, and the text behind it is the rest of the text. -/
theorem HeaderAt.length_rest (hp : HeaderAt text p h) : h.rest.length < text.length - p := by
  have hlength := (header?_suffix hp.2).2
  rwa [List.length_drop] at hlength

theorem foundAt_pos (hp : HeaderAt text p h) : 0 < (foundAt path text p h).2 := by
  have hlength := hp.length_rest
  unfold foundAt Header.found
  split <;> dsimp only <;> omega

theorem scanAt_some (hp : HeaderAt text p h) : scanAt path text p =
    (foundAt path text p h).1 :: scanAt path text (p + (foundAt path text p h).2) := by
  have hlt := hp.lt_length
  have hhere := headerHere?_eq_some_iff.mpr hp
  rw [List.drop_eq_getElem_cons hlt] at hhere
  have hlength : (text.drop (p + 1)).length + 1 - h.rest.length = text.length - p - h.rest.length := by
    rw [List.length_drop]
    omega
  obtain ⟨n, hn⟩ : ∃ n, (foundAt path text p h).2 = n + 1 :=
    ⟨(foundAt path text p h).2 - 1, by have := foundAt_pos path hp; omega⟩
  have hplace : p + (n + 1) = (p + 1) + n := by omega
  have habove : ((text.drop (p + 1)).take n).reverse ++ text[p] :: (text.take p).reverse =
      (text.take (p + (n + 1))).reverse := by
    rw [hplace, List.take_add, List.reverse_append, reverse_take_add_one hlt]
  rw [scanAt, List.drop_eq_getElem_cons hlt, scanFrom_some path hhere, hlength, ← foundAt, hn,
    scanFrom_skip, Nat.add_sub_cancel, habove, List.drop_drop, scanAt, hplace]

/-- Induction over the places to which a scan comes: the end of the text, a place without a header, and a
header, behind which the scan goes on. -/
theorem scanAt_induction (text : List Char) {motive : Nat → List Found → Prop}
    (done : ∀ p, text.length ≤ p → motive p [])
    (step : ∀ p found, (∀ h, ¬HeaderAt text p h) → motive (p + 1) found → motive p found)
    (header : ∀ p h found, HeaderAt text p h → motive (p + (foundAt path text p h).2) found →
      motive p ((foundAt path text p h).1 :: found)) (p : Nat) :
    motive p (scanAt path text p) := by
  induction hleft : text.length - p using Nat.strongRecOn generalizing p with
  | _ left ih =>
    by_cases hlt : p < text.length
    · by_cases hnone : ∀ h, ¬HeaderAt text p h
      · rw [scanAt_none path hlt hnone]
        exact step p _ hnone (ih _ (by omega) _ rfl)
      · push Not at hnone
        obtain ⟨h, hp⟩ := hnone
        have hpos := foundAt_pos path hp
        rw [scanAt_some path hp]
        exact header p h _ hp (ih _ (by omega) _ rfl)
    · rw [scanAt_end path (by omega)]
      exact done p (by omega)

/-! ## What a header opens -/

theorem foundAt_unclosed (hclosing : closing? braces (braces.opening :: h.rest) = none) :
    foundAt path text p h = (.unclosed h.keyword h.name (lineAt text p) path,
      text.length - p - h.rest.length) := by
  rw [foundAt, found_of_unclosed hclosing, List.count_reverse, lineAt]

/-- Whether the block stands in the text: its header is at its start, it stops at the brace that closes the one
of its header, and its body is what is between the two braces. -/
structure Block.StandsIn (text : List Char) (b : Block) : Prop where
  start_lt_stop : b.start < b.stop
  header : ∃ h brace, HeaderAt text b.start h ∧ b.keyword = h.keyword ∧ b.name = h.name ∧
    text.drop brace = braces.opening :: h.rest ∧ closingAt? braces text brace = some b.stop ∧
    b.body = text.extract (brace + 1) b.stop
  closing : text[b.stop]? = some braces.closing
  line : b.line = lineAt text b.start

theorem foundAt_block (hp : HeaderAt text p h) {n : Nat}
    (hclosing : closing? braces (braces.opening :: h.rest) = some n) :
    ∃ b, foundAt path text p h = (.block b, b.stop + 1 - p) ∧ b.start = p ∧ b.StandsIn text := by
  have hlt := hp.lt_length
  obtain ⟨front, hfront, -⟩ := exists_front_of_header? hp.2
  have hlength := congrArg List.length hfront
  simp only [List.length_drop, List.length_append, List.length_cons] at hlength
  have hbrace : text.drop (p + front.length) = braces.opening :: h.rest := by
    rw [← List.drop_drop, hfront, List.drop_left]
  have hrest : text.drop (p + front.length + 1) = h.rest := by
    rw [← List.drop_drop, hbrace, List.drop_one, List.tail_cons]
  -- The closing brace is the last character of the group.
  obtain ⟨hn, inner, -, hgroup⟩ := (closing?_eq_some_iff braces_distinct).mp hclosing
  have hinner : h.rest.take n = inner ++ [braces.closing] := (List.cons.inj hgroup).2
  obtain rfl : n = inner.length + 1 := by
    have hcount := congrArg List.length hinner
    simp only [List.length_take, List.length_append, List.length_singleton] at hcount
    omega
  have hlast : text[p + front.length + 1 + inner.length]? = some braces.closing := by
    rw [← List.getElem?_drop, hrest, ← List.getElem?_take_of_lt (Nat.lt_succ_self _), hinner]
    simp
  have hstop : p + (text.length - p - h.rest.length) + (inner.length + 1) - 1 =
      p + front.length + 1 + inner.length := by omega
  have hused : text.length - p - h.rest.length + (inner.length + 1) =
      p + front.length + 1 + inner.length + 1 - p := by omega
  have hstart : (text.take p).reverse.length = p := by simp; omega
  refine ⟨{ keyword := h.keyword, name := h.name, body := h.rest.take inner.length
            description := docAtEnd (text.take p).reverse.reverse, line := lineAt text p, sourcePath := path
            start := p, stop := p + front.length + 1 + inner.length }, ?_, rfl, ?_⟩
  · simp only [foundAt, Header.found, hclosing, hstart, hstop, hused, lineAt, List.count_reverse,
      Nat.add_sub_cancel]
  refine ⟨by dsimp only; omega, ⟨h, p + front.length, hp, rfl, rfl, hbrace, ?_, ?_⟩, hlast, rfl⟩
  · rw [closingAt?, hbrace, hclosing, Option.map_some]
    simp only [Option.some.injEq]
    omega
  · rw [List.extract_eq_take_drop, hrest]
    simp only [Nat.add_sub_cancel_left]

/-- No header starts with the brace that ends a block. -/
theorem Block.StandsIn.no_header {b : Block} (hb : b.StandsIn text) : ¬HeaderAt text b.stop h := by
  intro hp
  obtain ⟨front, hfront, hwords⟩ := exists_front_of_header? hp.2
  have hhead : (text.drop b.stop).head? = some braces.closing := by
    rw [List.head?_drop]
    exact hb.closing
  rw [hfront] at hhead
  cases front with
  | nil => exact absurd hhead (by simp [braces])
  | cons c front =>
    obtain rfl : c = braces.closing := by simpa using hhead
    exact absurd (hwords _ List.mem_cons_self) (by decide)

/-! ## What a scan accounts for -/

/-- How often a header of the text is accounted for: as the header of a block, as a header that is left open,
and as one inside of a block. -/
def timesAccounted (path : Option String) (text : List Char) (q : Nat) (h : Header)
    (found : List Found) : Nat :=
  (found.filterMap Found.block?).countP (fun b => b.start = q) +
    (found.filterMap Found.fault?).count (.unclosed h.keyword h.name (lineAt text q) path) +
      (found.filterMap Found.block?).countP fun b => b.start < q ∧ q < b.stop

/-- From each place on a scan accounts once for each header ahead of it. -/
theorem timesAccounted_scanAt (hq : HeaderAt text q h) (p : Nat) :
    timesAccounted path text q h (scanAt path text p) = if p ≤ q then 1 else 0 := by
  induction p using scanAt_induction path text with
  | done p hp =>
    have hlt := hq.lt_length
    rw [if_neg (by omega)]
    rfl
  | step p found hnone ih =>
    have hne : p ≠ q := fun heq => hnone h (heq ▸ hq)
    rw [ih]
    split <;> split <;> omega
  | header p g found hp ih =>
    cases hclosing : closing? braces (braces.opening :: g.rest) with
    | none =>
      rw [foundAt_unclosed path hclosing] at ih ⊢
      dsimp only at ih ⊢
      have hlength := hp.length_rest
      have hinside (hpq : p < q) : p + (text.length - p - g.rest.length) ≤ q := by
        by_contra hq'
        exact hp.no_start hpq (by omega) hq.1
      have hsame : (BlockFault.unclosed g.keyword g.name (lineAt text p) path ==
          .unclosed h.keyword h.name (lineAt text q) path) = decide (p = q) := by
        rw [Bool.eq_iff_iff, beq_iff_eq, decide_eq_true_iff]
        constructor
        · intro heq
          injection heq with _ _ hline
          rcases Nat.lt_trichotomy p q with hlt | heq | hlt
          · exact absurd hline (Nat.ne_of_lt (lineAt_lt hlt hq.1))
          · exact heq
          · exact absurd hline.symm (Nat.ne_of_lt (lineAt_lt hlt hp.1))
        · rintro rfl
          obtain rfl := hp.unique hq
          rfl
      simp only [timesAccounted, List.filterMap_cons, Found.block?, Found.fault?, List.count_cons, hsame,
        decide_eq_true_eq] at ih ⊢
      split at ih <;> split <;> split <;> omega
    | some n =>
      obtain ⟨b, hfound, rfl, hb⟩ := foundAt_block path hp hclosing
      rw [hfound] at ih ⊢
      have hstop : q ≠ b.stop := fun heq => hb.no_header (heq ▸ hq)
      have hlt := hb.start_lt_stop
      simp only [timesAccounted, List.filterMap_cons, Found.block?, Found.fault?, List.countP_cons,
        decide_eq_true_eq] at ih ⊢
      split at ih <;> split <;> split <;> split <;> omega

/-- From each place on the blocks of a scan stand one after the other. -/
theorem blocks_scanAt (p : Nat) :
    (∀ b ∈ (scanAt path text p).filterMap Found.block?, p ≤ b.start ∧ b.StandsIn text) ∧
      ((scanAt path text p).filterMap Found.block?).Pairwise fun a b => a.stop < b.start := by
  induction p using scanAt_induction path text with
  | done p hp => simp
  | step p found hnone ih =>
    exact ⟨fun b hb => ⟨by have := (ih.1 b hb).1; omega, (ih.1 b hb).2⟩, ih.2⟩
  | header p h found hp ih =>
    have hpos := foundAt_pos path hp
    cases hclosing : closing? braces (braces.opening :: h.rest) with
    | none =>
      rw [foundAt_unclosed path hclosing] at ih hpos ⊢
      exact ⟨fun b hb => ⟨by have := (ih.1 b hb).1; omega, (ih.1 b hb).2⟩, ih.2⟩
    | some n =>
      obtain ⟨b, hfound, rfl, hb⟩ := foundAt_block path hp hclosing
      rw [hfound] at ih hpos ⊢
      have hlt := hb.start_lt_stop
      simp only [List.filterMap_cons, Found.block?, List.forall_mem_cons, List.pairwise_cons]
      refine ⟨⟨⟨Nat.le_refl _, hb⟩, fun a ha => ⟨?_, (ih.1 a ha).2⟩⟩, fun a ha => ?_, ih.2⟩
      · have := (ih.1 a ha).1
        omega
      · have := (ih.1 a ha).1
        omega

end Places

/-- The blocks of a text stand one after the other, and each of them from its header to the brace that closes
it. Every header of the text is the header of one block, or it is reported once as left open, or it is inside
of one block, and nothing of this is true twice. -/
theorem headers_accounted (path : Option String) (text : List Char) :
    (((scan path text).filterMap Found.block?).Pairwise fun a b => a.stop < b.start) ∧
    (∀ b ∈ (scan path text).filterMap Found.block?, b.StandsIn text) ∧
    ∀ p h, StartsLine text p → header? (text.drop p) = some h →
      ((scan path text).filterMap Found.block?).countP (fun b => b.start = p) +
        ((scan path text).filterMap Found.fault?).count
          (.unclosed h.keyword h.name (lineAt text p) path) +
        ((scan path text).filterMap Found.block?).countP (fun b => b.start < p ∧ p < b.stop) = 1 := by
  obtain ⟨hblocks, hapart⟩ := @blocks_scanAt text path 0
  rw [scanAt_zero] at hblocks hapart
  refine ⟨hapart, fun b hb => (hblocks b hb).2, fun p h hstart hheader => ?_⟩
  have honce := timesAccounted_scanAt path ⟨hstart, hheader⟩ 0
  rwa [scanAt_zero, if_pos (Nat.zero_le p)] at honce

/-- A block with a header in it, and a header that is left open. -/
def nestedText : List Char := "model User \x7b\n  enum Role \x7b\x7d\n\x7d\n view All\x7b\n".toList

theorem headers_accounted_nested :
    (∀ p ∈ [0, 13, 30], StartsLine nestedText p ∧ (header? (nestedText.drop p)).isSome) ∧
    (scan none nestedText).filterMap Found.fault? = [.unclosed .view "All" 4 none] ∧
    ((scan none nestedText).filterMap Found.block?).map (fun b => (b.start, b.stop)) = [(0, 28)] ∧
    ∀ p ∈ [0, 13, 30], ∀ h, header? (nestedText.drop p) = some h →
      ((scan none nestedText).filterMap Found.block?).countP (fun b => b.start = p) +
        ((scan none nestedText).filterMap Found.fault?).count
          (.unclosed h.keyword h.name (lineAt nestedText p) none) +
        ((scan none nestedText).filterMap Found.block?).countP (fun b => b.start < p ∧ p < b.stop) = 1 := by
  have hstart : ∀ p ∈ [0, 13, 30], StartsLine nestedText p := by
    simp only [List.forall_mem_cons, StartsLine]
    decide
  exact ⟨fun p hp => ⟨hstart p hp, by revert p; decide +kernel⟩, by decide +kernel, by decide +kernel,
    fun p hp h hh => (headers_accounted none nestedText).2.2 p h (hstart p hp) hh⟩

end SchemaTypes.Prisma
