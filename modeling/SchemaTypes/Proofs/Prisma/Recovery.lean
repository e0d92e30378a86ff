import Mathlib.Data.List.Infix
import SchemaTypes.Proofs.Prisma.Comments
import SchemaTypes.Proofs.Prisma.Spans

/-!
# Behind a header that is left open

The brace of a header stays open if nothing behind it closes more braces than it opens. Such a header hides
nothing of what follows: the scan takes it up as left open and goes on behind its brace, and from the next
line on it finds what it would find in the rest of the text alone, with lines and places counted on.

Results:
* `closingFrom_eq_none_iff`: a bracket stays open exactly if the brackets behind it never close it.
* `scanFrom_eq_nil`: without braces nothing is found.
* `scan_left_open`: a header that is left open, and what is found behind it.
-/

namespace SchemaTypes.Prisma

/-! ## Brackets that stay open -/

/-- The characters of a text that stand outside strings and comments, with the marks that start these. -/
def codeOf (comments : Bool) : Mode → List Char → List Char
  | _, [] => []
  | mode, c :: cs =>
    let next := mode.after comments c cs.head?
    if mode = .code then c :: codeOf comments next cs else codeOf comments next cs

theorem forall_prefix_cons_iff {P : List Char → Prop} {c : Char} {cs : List Char} :
    (∀ front, front <+: c :: cs → P front) ↔ P [] ∧ ∀ front, front <+: cs → P (c :: front) := by
  simp only [List.prefix_cons_iff]
  constructor
  · intro h
    exact ⟨h [] (.inl rfl), fun front hfront => h _ (.inr ⟨front, rfl, hfront⟩)⟩
  · rintro ⟨hnil, hcons⟩ front (rfl | ⟨front, rfl, hfront⟩)
    · exact hnil
    · exact hcons front hfront

/-- A search finds nothing exactly if, outside strings and comments, no front of the text closes as many groups
as are open there. -/
theorem closingFrom_eq_none_iff {b : Brackets} (hne : b.opening ≠ b.closing) {mode : Mode} {depth : Nat}
    {cs : List Char} : closingFrom b mode (depth + 1 : Nat) cs = none ↔
      ∀ front, front <+: codeOf b.comments mode cs →
        front.count b.closing ≤ front.count b.opening + depth := by
  induction cs generalizing mode depth with
  | nil => simp [closingFrom, codeOf]
  | cons c cs ih =>
    rw [closingFrom_cons, codeOf]
    by_cases hmode : mode = .code
    · subst hmode
      simp only [true_and, if_true, forall_prefix_cons_iff, List.count_nil, Nat.zero_le]
      by_cases hclosing : c = b.closing
      · subst hclosing
        have hdepth : b.depthAfter (depth + 1 : Nat) b.closing = (depth : Nat) := by
          simp [Brackets.depthAfter, hne.symm]
        rw [hdepth]
        cases depth with
        | zero =>
          -- The bracket itself closes the last open group.
          rw [if_pos ⟨rfl, rfl⟩]
          refine iff_of_false (Option.some_ne_none 0) fun hfront => ?_
          simpa [hne.symm] using hfront [] List.nil_prefix
        | succ depth =>
          rw [if_neg (fun h => by have := h.2; omega), Option.map_eq_none_iff, ih]
          refine forall₂_congr fun front _ => ?_
          rw [List.count_cons_self, List.count_cons_of_ne hne.symm]
          omega
      rw [if_neg fun h => hclosing h.1, Option.map_eq_none_iff]
      by_cases hopening : c = b.opening
      · subst hopening
        have hdepth : b.depthAfter (depth + 1 : Nat) b.opening = (depth + 1 + 1 : Nat) := by
          simp [Brackets.depthAfter]
        rw [hdepth, ih]
        refine forall₂_congr fun front _ => ?_
        rw [List.count_cons_self, List.count_cons_of_ne hne]
        omega
      · have hdepth : b.depthAfter (depth + 1 : Nat) c = (depth + 1 : Nat) := by
          simp [Brackets.depthAfter, hopening, hclosing]
        rw [hdepth, ih]
        refine forall₂_congr fun front _ => ?_
        rw [List.count_cons_of_ne hclosing, List.count_cons_of_ne hopening]
    · simp only [hmode, false_and, if_false, Option.map_eq_none_iff]
      exact ih

/-! ## The text behind a header -/

section Header

variable {above : List Char} {keyword : Keyword} {name : String}

theorem header?_append_rest {rest : List Char} (h : header? above = some ⟨keyword, name, rest⟩)
    (more : List Char) : header? (above ++ more) = some ⟨keyword, name, rest ++ more⟩ := by
  obtain ⟨hname, pad, gap, gap', hpad, hne, hgap, hgap', rfl⟩ := header?_eq_some_iff.mp h
  exact header?_eq_some_iff.mpr ⟨hname, pad, gap, gap', hpad, hne, hgap, hgap', by simp⟩

theorem no_slash_of_header? (h : header? above = some ⟨keyword, name, []⟩) : '/' ∉ above := by
  obtain ⟨front, rfl, hwords⟩ := exists_front_of_header? h
  rw [List.mem_append, not_or]
  refine ⟨fun hmem => ?_, by simp [braces]⟩
  exact absurd (hwords _ hmem) (by decide)

/-- A text without slashes is no documentation. -/
theorem docLine?_eq_none {line : List Char} (h : '/' ∉ line) : docLine? line = none := by
  rw [Option.eq_none_iff_forall_ne_some]
  intro doc hdoc
  obtain ⟨rest, hrest⟩ := slashes_of_docLine? hdoc
  refine h ((List.dropWhile_suffix Text.isBlank).subset ?_)
  rw [hrest]
  exact List.mem_cons_self

/-- Without braces nothing is found. -/
theorem scanFrom_eq_nil (path : Option String) {cs : List Char} (h : braces.opening ∉ cs)
    (before : List Char) : scanFrom path 0 before cs = [] := by
  induction cs generalizing before with
  | nil => rfl
  | cons c cs ih =>
    have hnone : headerHere? before (c :: cs) = none := by
      rw [Option.eq_none_iff_forall_ne_some]
      intro header hhere
      unfold headerHere? at hhere
      split at hhere
      · obtain ⟨front, hfront, -⟩ := exists_front_of_header? hhere
        exact h (by simp [hfront])
      · simp at hhere
    rw [scanFrom_none path hnone]
    exact ih (fun hmem => h (List.mem_cons_of_mem _ hmem)) _

/-- Behind a header that is left open the scan goes on at its brace. -/
theorem scan_unclosed (path : Option String) (hheader : header? above = some ⟨keyword, name, []⟩)
    {rest : List Char} (hopen : closing? braces (braces.opening :: rest) = none) :
    scan path (above ++ rest) =
      .unclosed keyword name 1 path :: scanFrom path 0 above.reverse rest := by
  have hpos := (header?_suffix hheader).2
  obtain ⟨c, cs, rfl⟩ := List.exists_cons_of_length_pos hpos
  have hlong : headerHere? [] (c :: (cs ++ rest)) = some ⟨keyword, name, rest⟩ :=
    header?_append_rest hheader rest
  have hlength : (cs ++ rest).length + 1 - rest.length - 1 = cs.length := by
    rw [List.length_append]
    omega
  rw [scan, List.cons_append, scanFrom_some path hlong, found_of_unclosed hopen, hlength, scanFrom_skip,
    List.take_left, List.drop_left, List.reverse_cons]
  rfl

end Header

/-- A header at the start of a text, behind whose line nothing closes more braces than it opens, is reported as
left open and hides nothing: behind it the scan finds what it finds in the rest alone, further down. -/
theorem scan_left_open (path : Option String) {above : List Char} {keyword : Keyword} {name : String}
    (hheader : header? above = some ⟨keyword, name, []⟩) {u : List Char}
    (hfeed : u.getLast? = some '\n') (hplain : u.all isPlain = true) {t : List Char}
    (hopen : ∀ front, front <+: codeOf true .code t → front.count '\x7d' ≤ front.count '\x7b') :
    scan path (above ++ u ++ t) = .unclosed keyword name 1 path ::
        (scan path t).map (Found.lowered ((above ++ u).count '\n') (above ++ u).length) ∧
      (scan path (above ++ u ++ t)).filterMap Found.block? =
        ((scan path t).filterMap Found.block?).map
          (Block.lowered ((above ++ u).count '\n') (above ++ u).length) := by
  have hunclosed : closing? braces (braces.opening :: (u ++ t)) = none := by
    have hrest : closingFrom braces .code (0 + 1 : Nat) t = none :=
      (closingFrom_eq_none_iff (by decide)).mpr hopen
    have hdepth : braces.depthAfter 0 braces.opening = (0 + 1 : Nat) := rfl
    have hmode : Mode.code.after braces.comments braces.opening (u ++ t).head? = .code := rfl
    rw [closing?, closingFrom_cons, if_neg (by decide), hmode, if_pos rfl, hdepth, passes_plain hplain,
      hrest]
    rfl
  -- The text up to the end of the header's line ends a line, and this line is no documentation.
  have hlines : endsLine (above ++ u) = true := by simp [endsLine, hfeed]
  have hslash : '/' ∉ above ++ u := by
    rw [List.mem_append, not_or]
    exact ⟨no_slash_of_header? hheader, fun hmem => by
      simpa [isPlain] using List.all_eq_true.mp hplain _ hmem⟩
  have hdoc : ∀ line ∈ (Text.splitLines (above ++ u)).getLast?, docLine? line = none := by
    intro line hline
    refine docLine?_eq_none fun hmem => hslash ?_
    exact ((Text.splitLines_infix (above ++ u)).2 line (List.mem_of_getLast? hline)).subset hmem
  have hnothing : scanFrom path 0 above.reverse u = [] :=
    scanFrom_eq_nil path (fun hmem => by
      simpa [isPlain, braces] using List.all_eq_true.mp hplain _ hmem) _
  have hscan : scan path (above ++ u ++ t) = .unclosed keyword name 1 path ::
      (scan path t).map (Found.lowered ((above ++ u).count '\n') (above ++ u).length) := by
    have hlast : ∀ c ∈ u.getLast?, endsHeader c = true :=
      endsHeader_of_endsLine (by simp [endsLine, hfeed])
    rw [List.append_assoc, scan_unclosed path hheader hunclosed,
      scanFrom_append hlast (by simp [hnothing]), hnothing, List.nil_append, Nat.zero_sub,
      ← List.reverse_append, (isLower_of_endsLine hlines hdoc).scanFrom path 0 t]
    rfl
  exact ⟨hscan, by rw [hscan, List.filterMap_cons_none rfl, block?_lowered]⟩

/-- A model with its documentation and with braces in a string and in a comment, and an enum that is left
open. -/
def postText : List Char :=
  ("/// A post\nmodel Post \x7b\n  title String @default(\"\x7d\") // \x7d\n\x7d\n" ++
    "enum Role \x7b\n  A\n").toList

theorem scan_left_open_user :
    header? "model User \x7b".toList = some ⟨.model, "User", []⟩ ∧
    (∀ front, front <+: codeOf true .code postText → front.count '\x7d' ≤ front.count '\x7b') ∧
    scan none ("model User \x7b".toList ++ "\n  id Int\n".toList ++ postText) =
      .unclosed .model "User" 1 none :: (scan none postText).map (Found.lowered 2 22) ∧
    (scan none ("model User \x7b".toList ++ "\n  id Int\n".toList ++ postText)).map
      (fun f => f.block?.map fun b => (b.name, b.description, b.line)) =
        [none, some ("Post", some "A post", 4), none] := by
  have hheader : header? "model User \x7b".toList = some ⟨.model, "User", []⟩ := rfl
  have hopen : ∀ front, front <+: codeOf true .code postText →
      front.count '\x7d' ≤ front.count '\x7b' := by
    simp only [← List.mem_inits]
    decide +kernel
  exact ⟨hheader, hopen,
    (scan_left_open none hheader (by decide +kernel) (by decide +kernel) hopen).1, by decide +kernel⟩

end SchemaTypes.Prisma
