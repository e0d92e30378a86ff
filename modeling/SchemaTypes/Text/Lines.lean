/-!
# Lines

A text falls into lines at every character that ends a line. A carriage return with the line feed
after it ends one line, and a line end that closes the text opens no further line. Reading a file
turns the two spellings of a line end that carriage returns make into the line feed.

Results: `splitLines_line`, a line feed ends the line before it; `splitLines_append_feed`, what stands
on either side of a line feed falls into lines by itself; `splitLines_append_line`, a text that goes on
keeps the lines before its last one; `splitLines_infix`, a line is a piece of its
text; `unifyEnds_eq_self_iff`, the texts without carriage returns are those that are read as they stand;
`toList_joinLines_cons`, every line but the first follows a line feed.
-/

namespace SchemaTypes.Text

/-- The characters that end a line. -/
def isLineEnd (c : Char) : Bool :=
  [0x0A, 0x0B, 0x0C, 0x0D, 0x1C, 0x1D, 0x1E, 0x85, 0x2028, 0x2029].contains c.toNat

/-- A character put in front of the first line. -/
def consLine (c : Char) : List (List Char) → List (List Char)
  | [] => [[c]]
  | line :: lines => (c :: line) :: lines

/-- The lines of a text, without their ends. -/
def splitLines : List Char → List (List Char)
  | [] => []
  | '\r' :: '\n' :: rest => [] :: splitLines rest
  | c :: rest => if isLineEnd c then [] :: splitLines rest else consLine c (splitLines rest)

@[simp] theorem splitLines_nil : splitLines [] = [] := by
  simp [splitLines]

theorem splitLines_cons_feed (rest : List Char) :
    splitLines ('\n' :: rest) = [] :: splitLines rest := by
  simp [splitLines, isLineEnd]

theorem consLine_append {lines : List (List Char)} (h : lines ≠ []) (c : Char)
    (more : List (List Char)) : consLine c (lines ++ more) = consLine c lines ++ more := by
  cases lines with
  | nil => exact absurd rfl h
  | cons line lines => rfl

theorem splitLines_ne_nil {cs : List Char} (h : cs ≠ []) : splitLines cs ≠ [] := by
  fun_cases splitLines cs with
  | case1 => exact absurd rfl h
  | case2 rest => simp
  | case3 c rest hc => simp
  | case4 c rest hc hend =>
    unfold consLine
    split <;> simp

theorem splitLines_cons_of_not_end {c : Char} (h : isLineEnd c = false) (rest : List Char) :
    splitLines (c :: rest) = consLine c (splitLines rest) := by
  have hc : c ≠ '\r' := by
    rintro rfl
    exact absurd h (by decide)
  rw [splitLines]
  · simp [h]
  · intro _ heq
    exact absurd heq hc

/-- A line is a piece of its text, and the first one stands at the front. -/
theorem splitLines_infix (cs : List Char) :
    (∀ line ∈ (splitLines cs).head?, line <+: cs) ∧ ∀ line ∈ splitLines cs, line <:+: cs := by
  fun_induction splitLines cs with
  | case1 => simp
  | case2 rest ih =>
    refine ⟨by simp, fun line hline => ?_⟩
    rcases List.mem_cons.mp hline with rfl | hline
    · exact List.nil_infix
    · exact (ih.2 line hline).trans ⟨['\r', '\n'], [], by simp⟩
  | case3 c rest _ _ ih =>
    refine ⟨by simp, fun line hline => ?_⟩
    rcases List.mem_cons.mp hline with rfl | hline
    · exact List.nil_infix
    · exact List.infix_cons (ih.2 line hline)
  | case4 c rest _ _ ih =>
    cases hlines : splitLines rest with
    | nil =>
      have hfirst : [c] <+: c :: rest := List.cons_prefix_cons.mpr ⟨rfl, List.nil_prefix⟩
      simpa [consLine] using hfirst.isInfix
    | cons first more =>
      rw [hlines] at ih
      have hfirst : c :: first <+: c :: rest :=
        List.cons_prefix_cons.mpr ⟨rfl, ih.1 first rfl⟩
      refine ⟨by simpa [consLine] using hfirst, fun line hline => ?_⟩
      rcases List.mem_cons.mp hline with rfl | hline
      · exact hfirst.isInfix
      · exact List.infix_cons (ih.2 line (List.mem_cons_of_mem first hline))

/-- A line feed ends the line before it. -/
theorem splitLines_line {line : List Char} (h : ∀ c ∈ line, isLineEnd c = false)
    (rest : List Char) : splitLines (line ++ '\n' :: rest) = line :: splitLines rest := by
  induction line with
  | nil => exact splitLines_cons_feed rest
  | cons c line ih =>
    rw [List.cons_append, splitLines_cons_of_not_end (h c List.mem_cons_self),
      ih fun d hd => h d (List.mem_cons_of_mem c hd)]
    rfl

theorem splitLines_cons_of_end {c : Char} (h : isLineEnd c = true) {rest : List Char}
    (hpair : ∀ more, c = '\r' → rest = '\n' :: more → False) :
    splitLines (c :: rest) = [] :: splitLines rest := by
  rw [splitLines]
  · simp [h]
  · exact hpair

/-- The end of a line separates the lines before it from those after it, unless it is the first half of a
carriage return with a line feed. -/
theorem splitLines_append_end {e : Char} (hend : isLineEnd e = true) (cs : List Char)
    {rest : List Char} (hpair : e = '\r' → rest.head? ≠ some '\n') :
    splitLines (cs ++ e :: rest) = splitLines (cs ++ [e]) ++ splitLines rest := by
  have hlast (more : List Char) (hmore : e = '\r' → more.head? ≠ some '\n') :
      splitLines (e :: more) = [] :: splitLines more :=
    splitLines_cons_of_end hend fun after hreturn heq => hmore hreturn (by rw [heq, List.head?_cons])
  fun_induction splitLines cs with
  | case1 => simp [hlast rest hpair, hlast [] (by simp)]
  | case2 tail ih => simp [splitLines, ih]
  | case3 c tail hfirst hc ih =>
    cases tail with
    | nil =>
      by_cases hfeed : c = '\r' ∧ e = '\n'
      · obtain ⟨rfl, rfl⟩ := hfeed
        simp [splitLines]
      · have hpair' (more : List Char) : ∀ after, c = '\r' → e :: more = '\n' :: after → False :=
          fun _ hreturn heq => hfeed ⟨hreturn, (List.cons.inj heq).1⟩
        simp [splitLines_cons_of_end hc (hpair' _), hlast rest hpair, hlast [] (by simp)]
    | cons d tail =>
      have hpair' (more : List Char) :
          ∀ after, c = '\r' → d :: (tail ++ more) = '\n' :: after → False := by
        intro after hreturn heq
        exact hfirst tail hreturn (by rw [(List.cons.inj heq).1])
      rw [List.cons_append, List.cons_append, List.cons_append, List.cons_append,
        splitLines_cons_of_end hc (hpair' _), splitLines_cons_of_end hc (hpair' _),
        ← List.cons_append, ih]
      rfl
  | case4 c tail hfirst hc ih =>
    have hcs : tail ++ [e] ≠ [] := by simp
    simp only [Bool.not_eq_true] at hc
    rw [List.cons_append, List.cons_append, splitLines_cons_of_not_end hc,
      splitLines_cons_of_not_end hc, ih, consLine_append (splitLines_ne_nil hcs)]

/-- A line feed separates the lines before it from those after it. -/
theorem splitLines_append_feed (cs rest : List Char) :
    splitLines (cs ++ '\n' :: rest) = splitLines (cs ++ ['\n']) ++ splitLines rest :=
  splitLines_append_end (by decide) cs fun h => absurd h (by decide)

/-- Characters that end no line belong to the first line of what follows them. -/
theorem splitLines_append_of_no_end {cs : List Char} (h : ∀ c ∈ cs, isLineEnd c = false)
    {rest first : List Char} {lines : List (List Char)} (hrest : splitLines rest = first :: lines) :
    splitLines (cs ++ rest) = (cs ++ first) :: lines := by
  induction cs with
  | nil => exact hrest
  | cons c cs ih =>
    rw [List.cons_append, splitLines_cons_of_not_end (h c List.mem_cons_self),
      ih fun d hd => h d (List.mem_cons_of_mem c hd)]
    rfl

/-- What stands behind the last line end of a text. -/
def lastLine (cs : List Char) : List Char :=
  (cs.reverse.takeWhile fun c => !isLineEnd c).reverse

theorem lastLine_no_end (cs : List Char) : ∀ c ∈ lastLine cs, isLineEnd c = false := by
  intro c hc
  simpa using List.all_eq_true.mp List.all_takeWhile c (List.mem_reverse.mp hc)

/-- A text up to its last line end, and what stands behind it. -/
theorem append_lastLine (cs : List Char) : ∃ front, cs = front ++ lastLine cs ∧
    ∀ e ∈ front.getLast?, isLineEnd e = true := by
  refine ⟨(cs.reverse.dropWhile fun c => !isLineEnd c).reverse, ?_, fun e he => ?_⟩
  · rw [lastLine, ← List.reverse_append, List.takeWhile_append_dropWhile, List.reverse_reverse]
  · rw [List.getLast?_reverse] at he
    have hhead := List.head?_dropWhile_not (fun c => !isLineEnd c) cs.reverse
    rw [Option.mem_def.mp he] at hhead
    simpa using hhead

/-- A text that goes on on its last line: the lines before are its own. -/
theorem splitLines_append_line (cs : List Char) : ∃ before, ∀ c rest first lines,
    isLineEnd c = false → splitLines (c :: rest) = first :: lines →
      splitLines (cs ++ c :: rest) = before ++ (lastLine cs ++ first) :: lines := by
  obtain ⟨front, hcs, hfront⟩ := append_lastLine cs
  refine ⟨splitLines front, fun c rest first lines hc hrest => ?_⟩
  have hline := splitLines_append_of_no_end (lastLine_no_end cs) hrest
  have hsplit : cs ++ c :: rest = front ++ (lastLine cs ++ c :: rest) := by
    rw [← List.append_assoc, ← hcs]
  rw [hsplit]
  rcases List.eq_nil_or_concat front with rfl | ⟨front, e, rfl⟩
  · simpa using hline
  · have hend : isLineEnd e = true := hfront e (by simp)
    have hhead : (lastLine cs ++ c :: rest).head? ≠ some '\n' := by
      intro hfeed
      have hnone : ∀ d ∈ (lastLine cs ++ c :: rest).head?, isLineEnd d = false := by
        cases hlast : lastLine cs with
        | nil => simpa using hc
        | cons d tail => simpa [hlast] using lastLine_no_end cs d (by simp [hlast])
      exact absurd (hnone '\n' hfeed) (by decide)
    have hjoined := splitLines_append_end hend front fun _ => hhead
    rw [List.concat_eq_append, List.append_assoc, List.singleton_append, hjoined, hline]

/-- A text with every line end that is made of carriage returns written as a line feed. -/
def unifyEnds : List Char → List Char
  | [] => []
  | '\r' :: '\n' :: rest => '\n' :: unifyEnds rest
  | c :: rest => (if c = '\r' then '\n' else c) :: unifyEnds rest

theorem unifyEnds_of_no_return (cs : List Char) (h : '\r' ∉ cs) : unifyEnds cs = cs := by
  fun_induction unifyEnds cs with
  | case1 => rfl
  | case2 rest ih => simp at h
  | case3 c rest hc ih =>
    simp only [List.mem_cons, not_or] at h
    rw [ih h.2, if_neg (Ne.symm h.1)]

/-- No carriage return is read. -/
theorem return_not_mem_unifyEnds (cs : List Char) : '\r' ∉ unifyEnds cs := by
  fun_induction unifyEnds cs with
  | case1 => simp
  | case2 rest ih => simpa using ih
  | case3 c rest hc ih =>
    have hne : '\r' ≠ if c = '\r' then '\n' else c := by
      split
      · decide
      · exact Ne.symm ‹_›
    simpa [hne] using ih

/-- A text is read as it stands exactly if no carriage return is in it. -/
theorem unifyEnds_eq_self_iff (cs : List Char) : unifyEnds cs = cs ↔ '\r' ∉ cs :=
  ⟨fun h => h ▸ return_not_mem_unifyEnds cs, unifyEnds_of_no_return cs⟩

/-- The lines put together again, a line feed between each two of them. -/
def joinLines (lines : List String) : String :=
  "\n".intercalate lines

theorem toList_joinLines_cons (line : String) (lines : List String) :
    (joinLines (line :: lines)).toList =
      line.toList ++ lines.flatMap fun more => '\n' :: more.toList := by
  induction lines generalizing line with
  | nil => simp [joinLines]
  | cons more lines ih =>
    have h := ih more
    simp only [joinLines, String.intercalate_cons_cons, String.toList_append] at h ⊢
    rw [h]
    simp

end SchemaTypes.Text
