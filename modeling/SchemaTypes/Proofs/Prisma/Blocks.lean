import Mathlib.Data.List.Forall2
import SchemaTypes.Proofs.Prisma.Lines

/-!
# Scanning canonical schemas

The scan of a canonical schema finds its blocks one after the other. A line of documentation is no header,
so the scan goes on to the header below it; the block reaches to its closing brace, and its description is
the documentation between it and the block before. After each block the scan stands at the start of a
line again, with a block or nothing before it, and this is what the induction carries along.

Results:
* `header?_eq_some`: the header of a block is recognized.
* `docAtEnd_docText`: the documentation above a block is found, and no more.
* `scanFrom_decl`, `scanFrom_schemaText`: one block, and all blocks of a schema.
-/

namespace SchemaTypes.Prisma

/-! ## Headers -/

theorem afterGap?_name {name : String} (h : Text.isName name = true) (rest : List Char) :
    afterGap? (' ' :: (name.toList ++ rest)) = some (name.toList ++ rest) := by
  obtain ⟨c, cs, hcs, hword⟩ := exists_cons_of_isName h
  have hspace : c ≠ ' ' := ne_of_isWord hword (by decide)
  have htab : c ≠ '\t' := ne_of_isWord hword (by decide)
  have hindent : isIndent c = false := by simp [isIndent, hspace, htab]
  have hgap : isIndent ' ' = true := by decide
  simp [afterGap?, hgap, hcs, hindent]

theorem nameAndBrace?_name {name : String} (h : Text.isName name = true) (rest : List Char) :
    nameAndBrace? (name.toList ++ ' ' :: '\x7b' :: rest) = some (name, rest) := by
  obtain ⟨hne, -⟩ := Text.isName_iff.mp h
  have hspace : ∀ c ∈ (' ' :: '\x7b' :: rest).head?, Text.isWord c = false := by simp; decide
  have hgap : (' ' :: '\x7b' :: rest).dropWhile isIndent = '\x7b' :: rest := rfl
  simp [nameAndBrace?, takeWhile_name h hspace, dropWhile_name h hspace, hgap, hne]

/-- No keyword with a blank behind it starts with another keyword. -/
theorem isPrefixOf?_keyword (other keyword : Keyword) (rest : List Char) :
    other.text.toList.isPrefixOf? (keyword.text.toList ++ ' ' :: rest) =
      if other = keyword then some (' ' :: rest) else none := by
  cases other <;> cases keyword <;> rfl

/-- The header of a block is recognized. -/
theorem header?_eq_some (keyword : Keyword) {name : String} (h : Text.isName name = true)
    (rest : List Char) :
    header? (keyword.text.toList ++ ' ' :: (name.toList ++ ' ' :: '\x7b' :: rest)) =
      some ⟨keyword, name, rest⟩ := by
  have hline : ∀ cs, (keyword.text.toList ++ ' ' :: cs).dropWhile isIndent =
      keyword.text.toList ++ ' ' :: cs := by
    intro cs
    cases keyword <;> rfl
  have hgap := afterGap?_name h (' ' :: '\x7b' :: rest)
  have hname := nameAndBrace?_name h rest
  simp only [header?, hline, isPrefixOf?_keyword]
  cases keyword <;> simp [Keyword.all, hgap, hname]

/-- A line of documentation is no header. -/
theorem header?_docLine (doc : String) (rest : List Char) :
    header? (docLine doc ++ rest) = none := by
  have hline : (docLine doc ++ rest).dropWhile isIndent = docLine doc ++ rest := rfl
  have hnot (keyword : Keyword) :
      keyword.text.toList.isPrefixOf? (docLine doc ++ rest) = none := by
    cases keyword <;> rfl
  simp only [header?, hline, hnot]
  rfl

/-! ## Steps of a scan -/

variable (path : Option String)

theorem scanFrom_skip (skip : Nat) (before cs : List Char) :
    scanFrom path skip before cs =
      scanFrom path 0 ((cs.take skip).reverse ++ before) (cs.drop skip) := by
  induction skip generalizing before cs with
  | zero => simp
  | succ skip ih =>
    cases cs with
    | nil => simp [scanFrom]
    | cons c cs =>
      rw [scanFrom, ih]
      simp

theorem scanFrom_none {before cs : List Char} {c : Char} (h : headerHere? before (c :: cs) = none) :
    scanFrom path 0 before (c :: cs) = scanFrom path 0 (c :: before) cs := by
  rw [scanFrom, h]

theorem headerHere?_inside {b : Char} (h : b ≠ '\n') (before cs : List Char) :
    headerHere? (b :: before) cs = none := by
  simp [headerHere?, h]

/-- The rest of a line of which some characters are already scanned. -/
theorem scanFrom_inside {line : List Char} (h : '\n' ∉ line) {b : Char} (hb : b ≠ '\n')
    (before rest : List Char) :
    scanFrom path 0 (b :: before) (line ++ '\n' :: rest) =
      scanFrom path 0 ((line ++ ['\n']).reverse ++ b :: before) rest := by
  induction line generalizing b before with
  | nil => exact scanFrom_none path (headerHere?_inside hb _ _)
  | cons c line ih =>
    simp only [List.mem_cons, not_or] at h
    rw [List.cons_append, scanFrom_none path (headerHere?_inside hb _ _), ih h.2 (Ne.symm h.1)]
    simp

/-- A line that is no header. -/
theorem scanFrom_line {c : Char} {line : List Char} (h : '\n' ∉ c :: line) {rest : List Char}
    (hheader : header? (c :: line ++ '\n' :: rest) = none) (before : List Char) :
    scanFrom path 0 before (c :: line ++ '\n' :: rest) =
      scanFrom path 0 ((c :: line ++ ['\n']).reverse ++ before) rest := by
  simp only [List.mem_cons, not_or] at h
  have hnone : headerHere? before (c :: line ++ '\n' :: rest) = none := by
    unfold headerHere?
    split
    · exact hheader
    · rfl
  rw [List.cons_append] at hnone ⊢
  rw [scanFrom_none path hnone, scanFrom_inside path h.2 (Ne.symm h.1)]
  simp

theorem scanFrom_docText {docs : List String} (h : docs.all isDoc = true)
    (before rest : List Char) : scanFrom path 0 before (docText docs ++ rest) =
      scanFrom path 0 ((docText docs).reverse ++ before) rest := by
  induction docs generalizing before with
  | nil => rfl
  | cons doc docs ih =>
    simp only [List.all_cons, Bool.and_eq_true] at h
    have hfeed : '\n' ∉ docLine doc := fun hmem => by
      simpa [isLineEnd_feed] using docLine_no_end h.1 _ hmem
    have hline := scanFrom_line path hfeed (header?_docLine doc ('\n' :: (docText docs ++ rest)))
      before
    have htext : docText (doc :: docs) = docLine doc ++ '\n' :: docText docs := by
      simp [docText_eq]
    rw [htext, List.append_assoc, List.cons_append]
    refine hline.trans ?_
    rw [ih h.2]
    simp [docLine]

/-- A header whose brace is closed opens a block, behind which the scan goes on. -/
theorem scanFrom_found {before cs : List Char} {h : Header} {n : Nat} (hne : cs ≠ []) (hn : 0 < n)
    (hhere : headerHere? before cs = some h)
    (hclosing : closing? braces (braces.opening :: h.rest) = some n) :
    scanFrom path 0 before cs =
      (h.found path before (cs.length - h.rest.length)).1 ::
        scanFrom path 0 ((cs.take (cs.length - h.rest.length + n)).reverse ++ before)
          (cs.drop (cs.length - h.rest.length + n)) := by
  obtain ⟨c, cs, rfl⟩ := List.exists_cons_of_ne_nil hne
  obtain ⟨m, rfl⟩ : ∃ m, n = m + 1 := ⟨n - 1, by omega⟩
  rw [scanFrom, hhere]
  simp only [Header.found, hclosing, List.length_cons, ← Nat.add_assoc, Nat.add_sub_cancel,
    List.take_succ_cons, List.drop_succ_cons, List.reverse_cons, List.append_assoc,
    List.singleton_append]
  rw [scanFrom_skip]

/-! ## Documentation above a block -/

theorem docLines_docs {docs : List String} (h : docs.all isDoc = true) {lines : List (List Char)}
    (hlines : ∀ line ∈ lines.head?, docLine? line = none) :
    docLines (docs.map docLine ++ lines) = docs := by
  induction docs with
  | nil =>
    cases lines with
    | nil => rfl
    | cons line lines => simp [docLines, hlines line rfl]
  | cons doc docs ih =>
    simp only [List.all_cons, Bool.and_eq_true] at h
    simp [docLines, docLine?_docLine h.1, ih h.2]

/-- What stands above a block: nothing, or the block before it. -/
def EndsBlock (above : List Char) : Prop :=
  above = [] ∨ ∃ front, above = front ++ ['\n', '\x7d', '\n']

theorem splitLines_docText {docs : List String} (h : docs.all isDoc = true) :
    Text.splitLines (docText docs) = docs.map docLine := by
  have hends : ∀ line ∈ docs.map docLine, ∀ c ∈ line, Text.isLineEnd c = false := by
    intro line hline
    obtain ⟨doc, hdoc, rfl⟩ := List.mem_map.mp hline
    exact docLine_no_end (List.all_eq_true.mp h doc hdoc)
  have hsplit := splitLines_flatMap hends []
  simpa [docText_eq, List.flatMap_map] using hsplit

/-- The lines above a block, of which the last ones are its documentation. -/
theorem splitLines_above {above : List Char} (habove : EndsBlock above) {docs : List String}
    (h : docs.all isDoc = true) : ∃ lines, (∀ line ∈ lines.getLast?, docLine? line = none) ∧
      Text.splitLines (above ++ docText docs) = lines ++ docs.map docLine := by
  rcases habove with rfl | ⟨front, rfl⟩
  · exact ⟨[], by simp, by simpa using splitLines_docText h⟩
  · refine ⟨Text.splitLines (front ++ ['\n']) ++ [['\x7d']], ?_, ?_⟩
    · intro line hline
      rw [List.getLast?_concat, Option.mem_def, Option.some.injEq] at hline
      subst hline
      decide
    · have hbrace : Text.splitLines ['\x7d', '\n'] = [['\x7d']] := by decide
      have htext : front ++ ['\n', '\x7d', '\n'] ++ docText docs =
          (front ++ ['\n', '\x7d']) ++ '\n' :: docText docs := by simp
      have hfront : (front ++ ['\n', '\x7d']) ++ ['\n'] = front ++ '\n' :: ['\x7d', '\n'] := by simp
      rw [htext, Text.splitLines_append_feed, hfront, Text.splitLines_append_feed, hbrace,
        splitLines_docText h]

/-- The documentation above a block is found, and no more. -/
theorem docAtEnd_docText {above : List Char} (habove : EndsBlock above) {docs : List String}
    (h : docs.all isDoc = true) : docAtEnd (above ++ docText docs) = description docs := by
  obtain ⟨lines, hlines, hsplit⟩ := splitLines_above habove h
  have hdocs : docLines (Text.splitLines (above ++ docText docs)).reverse = docs.reverse := by
    rw [hsplit, List.reverse_append, ← List.map_reverse]
    exact docLines_docs (by simpa using h) (by simpa [List.head?_reverse] using hlines)
  rw [docAtEnd, hdocs, List.reverse_reverse]
  cases docs <;> rfl

/-! ## Blocks -/

/-- Whether a block that was found is the one that was declared. Where it stands does not matter. -/
structure IsBlockOf (path : Option String) (d : Decl) (b : Block) : Prop where
  keyword : b.keyword = d.body.keyword
  name : b.name = d.name
  body : b.body = '\n' :: d.body.text
  description : b.description = Prisma.description d.docs
  sourcePath : b.sourcePath = path

theorem head_above {above : List Char} (habove : EndsBlock above) (docs : List String) :
    (above ++ docText docs).reverse.head?.all (· == '\n') = true := by
  rw [List.head?_reverse]
  rcases List.eq_nil_or_concat docs with rfl | ⟨docs, doc, rfl⟩
  · rcases habove with rfl | ⟨front, rfl⟩ <;> simp [docText]
  · simp [docText_eq]

/-- The line that opens a block, up to its brace. -/
def Decl.opening (d : Decl) : List Char :=
  d.body.keyword.text.toList ++ ' ' :: (d.name.toList ++ [' ', '\x7b'])

/-- The block from its first line feed to its closing brace. -/
def Decl.inside (d : Decl) : List Char :=
  '\n' :: d.body.text ++ ['\x7d']

theorem Decl.text_eq (d : Decl) : d.text = docText d.docs ++ (d.opening ++ d.inside ++ ['\n']) := by
  simp [Decl.text, Decl.headerText, Decl.opening, Decl.inside]

/-- One block, with the documentation above it. -/
theorem scanFrom_decl {d : Decl} (h : d.isCanonical = true) {above : List Char}
    (habove : EndsBlock above) (rest : List Char) :
    ∃ b, IsBlockOf path d b ∧ scanFrom path 0 above.reverse (d.text ++ rest) =
      .block b :: scanFrom path 0 (above ++ d.text).reverse rest := by
  simp only [Decl.isCanonical, Bool.and_eq_true] at h
  obtain ⟨⟨hdocs, hname⟩, hbody⟩ := h
  -- The scan comes to the header with everything above it behind.
  have hdoc := scanFrom_docText path hdocs above.reverse (d.opening ++ d.inside ++ ['\n'] ++ rest)
  rw [← List.reverse_append] at hdoc
  have hhere : headerHere? (above ++ docText d.docs).reverse
      (d.opening ++ d.inside ++ ['\n'] ++ rest) =
      some ⟨d.body.keyword, d.name, d.inside ++ '\n' :: rest⟩ := by
    rw [headerHere?, if_pos (head_above habove d.docs)]
    simpa [Decl.opening] using header?_eq_some d.body.keyword hname (d.inside ++ '\n' :: rest)
  have hclosing : closing? braces (braces.opening :: (d.inside ++ '\n' :: rest)) =
      some (d.body.text.length + 2) := by
    have hbraces := closing?_braces_body hbody ('\n' :: rest)
    have hopening : braces.opening = '\x7b' := rfl
    simpa [Decl.inside, hopening] using hbraces
  have hfound := scanFrom_found path (by simp [Decl.opening]) (by omega) hhere hclosing
  -- The block reaches to its closing brace, behind which a line feed is left.
  have hlength : (d.opening ++ d.inside ++ ['\n'] ++ rest).length -
      (d.inside ++ '\n' :: rest).length + (d.body.text.length + 2) =
        (d.opening ++ d.inside).length := by
    simp [Decl.inside]
  have hcut : d.opening ++ d.inside ++ ['\n'] ++ rest = (d.opening ++ d.inside) ++ '\n' :: rest := by
    simp
  rw [hlength, hcut, List.take_left, List.drop_left] at hfound
  have hbrace : (d.opening ++ d.inside).reverse ++ (above ++ docText d.docs).reverse =
      '\x7d' :: (('\n' :: d.body.text).reverse ++ d.opening.reverse ++
        (above ++ docText d.docs).reverse) := by
    simp [Decl.inside]
  have hfeed : scanFrom path 0 ((d.opening ++ d.inside).reverse ++ (above ++ docText d.docs).reverse)
      ('\n' :: rest) = scanFrom path 0 (above ++ d.text).reverse rest := by
    have hnone : headerHere? ((d.opening ++ d.inside).reverse ++
        (above ++ docText d.docs).reverse) ('\n' :: rest) = none := by
      rw [hbrace]
      exact headerHere?_inside (by decide) _ _
    rw [scanFrom_none path hnone, Decl.text_eq]
    simp
  have hstart : scanFrom path 0 above.reverse (d.text ++ rest) =
      scanFrom path 0 (above ++ docText d.docs).reverse
        ((d.opening ++ d.inside) ++ '\n' :: rest) := by
    rw [← hcut, ← hdoc, Decl.text_eq]
    simp
  simp only [Header.found, hclosing] at hfound
  refine ⟨_, ?_, (hstart.trans hfound).trans (by rw [hfeed])⟩
  refine ⟨rfl, rfl, ?_, ?_, rfl⟩
  · simp [Decl.inside]
  · rw [List.reverse_reverse]
    exact docAtEnd_docText habove hdocs

theorem Decl.text_endsBlock (d : Decl) : ∃ front, d.text = front ++ ['\n', '\x7d', '\n'] := by
  have hbody : ∃ front, '\n' :: d.body.text = front ++ ['\n'] := by
    rw [Body.text_eq]
    rcases List.eq_nil_or_concat d.body.lines with hlines | ⟨lines, line, hlines⟩
    · exact ⟨[], by simp [hlines]⟩
    · exact ⟨'\n' :: lines.flatMap (· ++ ['\n']) ++ line, by simp [hlines]⟩
  obtain ⟨front, hfront⟩ := hbody
  refine ⟨docText d.docs ++ d.opening ++ front, ?_⟩
  rw [Decl.text_eq, Decl.inside, hfront]
  simp

theorem EndsBlock.append_text (d : Decl) (above : List Char) : EndsBlock (above ++ d.text) := by
  obtain ⟨front, hfront⟩ := d.text_endsBlock
  exact Or.inr ⟨above ++ front, by rw [hfront, List.append_assoc]⟩

/-- The scan of a canonical schema finds its blocks. -/
theorem scanFrom_schemaText {decls : List Decl} (h : decls.all Decl.isCanonical = true)
    {above : List Char} (habove : EndsBlock above) :
    ∃ blocks, List.Forall₂ (IsBlockOf path) decls blocks ∧
      scanFrom path 0 above.reverse (schemaText decls) = blocks.map Found.block := by
  induction decls generalizing above with
  | nil => exact ⟨[], .nil, by simp [schemaText, scanFrom]⟩
  | cons d decls ih =>
    simp only [List.all_cons, Bool.and_eq_true] at h
    obtain ⟨b, hb, hfirst⟩ := scanFrom_decl path h.1 habove (schemaText decls)
    obtain ⟨blocks, hblocks, hmore⟩ := ih h.2 (EndsBlock.append_text d above)
    refine ⟨b :: blocks, .cons hb hblocks, ?_⟩
    rw [hmore] at hfirst
    exact hfirst

end SchemaTypes.Prisma
