import Mathlib.Data.List.Infix
import Mathlib.Data.List.ReduceOption
import SchemaTypes.Declaration.Interface

/-!
# Clearing a text of comments

A reader of a declaration goes through it character by character. It knows whether it is in a literal, in
a comment or in neither, and a comment starts only outside of literals. So what a piece of a text means
depends on where the reader is when it comes to it, and on one character behind it.

A text is cleared by deleting its comments, and each line that is left blank by that with them.

Results:
* `marks_append`: a text is read piece by piece.
* `reads_of_endsInCode`: what a text means that ends in code does not depend on what follows it.
* `Reads.append`, `Reads.plain_append`, `reads_comment`: texts that are read from code to code.
* `occursIn_iff`: what it means that a text stands in another one.
* `clear_eq_iff`: texts in lines of their own are cleared away exactly if they leave no line.
* `Cleared.append`, `Cleared.comment_append`, `withoutComments_eq_iff`: a text is cleared piece by piece.
-/

namespace SchemaTypes.Declaration

/-! ## Places -/

/-- Where a character stands. Of the two characters that open or close a comment, the second has a place
of its own. -/
inductive Place where
  | code
  | literal (quote : Char)
  | escaped (quote : Char)
  | opening
  | comment
  | closing
  deriving DecidableEq

/-- Whether the character opens a literal. -/
def opensLiteral (c : Char) : Bool :=
  "'\"`".toList.contains c

namespace Place

/-- The place behind a character. -/
def after (c : Char) (next : Option Char) : Place → Place
  | code =>
    if c == '/' && next == some '*' then opening
    else if opensLiteral c then literal c else code
  | literal quote =>
    if c == '\\' then escaped quote else if c == quote then code else literal quote
  | escaped quote => literal quote
  | opening => comment
  | comment => if c == '*' && next == some '/' then closing else comment
  | closing => code

/-- What is kept of a character. A whole comment is kept as one mark, where it starts. -/
def kept (c : Char) (next : Option Char) : Place → List (Option Char)
  | code => if c == '/' && next == some '*' then [none] else [some c]
  | literal _ => [some c]
  | escaped _ => [some c]
  | opening => []
  | comment => []
  | closing => []

/-- What is kept of a text in front of another character. -/
def marks (next : Option Char) : Place → List Char → List (Option Char)
  | _, [] => []
  | p, c :: cs => p.kept c (cs.head?.or next) ++ marks next (p.after c (cs.head?.or next)) cs

/-- The place behind a text in front of another character. -/
def through (next : Option Char) : Place → List Char → Place
  | p, [] => p
  | p, c :: cs => through next (p.after c (cs.head?.or next)) cs

theorem marks_append (next : Option Char) (p : Place) (t s : List Char) :
    p.marks next (t ++ s) =
      p.marks (s.head?.or next) t ++ (p.through (s.head?.or next) t).marks next s := by
  induction t generalizing p with
  | nil => rfl
  | cons c t ih => simp [marks, through, ih, List.head?_append, Option.or_assoc]

theorem through_append (next : Option Char) (p : Place) (t s : List Char) :
    p.through next (t ++ s) = (p.through (s.head?.or next) t).through next s := by
  induction t generalizing p with
  | nil => rfl
  | cons c t ih => simp [through, ih, List.head?_append, Option.or_assoc]

/-- A text behind which is code is read in one way, unless an asterisk follows it. -/
theorem read_of_through {next : Option Char} (hnext : next ≠ some '*') {t : List Char} {p : Place}
    (h : p.through none t = .code) : p.marks next t = p.marks none t ∧ p.through next t = .code := by
  induction t generalizing p with
  | nil => exact ⟨rfl, h⟩
  | cons c t ih =>
    cases t with
    | nil =>
      -- What follows matters to a slash in code and to an asterisk in a comment, and that is no code.
      cases p with
      | code => simpa [marks, through, kept, after, hnext] using h
      | comment => simp [through, after] at h
      | _ => exact ⟨rfl, h⟩
    | cons d t =>
      obtain ⟨hmarks, hthrough⟩ := ih h
      exact ⟨congrArg (_ ++ ·) hmarks, hthrough⟩

end Place

/-! ## Clearing -/

/-- Whether a line is kept: not if it holds a comment and nothing else. -/
def keepsLine (line : List (Option Char)) : Bool :=
  !(line.contains none && line.all fun c => c.all Text.isBlank)

/-- A marked text without its marks and without the lines that they leave blank. -/
def clear (x : List (Option Char)) : List Char :=
  List.intercalate ['\n'] (((x.splitOn (some '\n')).filter keepsLine).map List.reduceOption)

/-- A text without the comments outside of its literals and without the lines that they leave blank. -/
def withoutComments (t : String) : String :=
  String.ofList (clear (Place.code.marks none t.toList))

/-- The lines that are left of a text when it is cleared. -/
def linesLeft (t : String) : List (List (Option Char)) :=
  ((Place.code.marks none t.toList).splitOn (some '\n')).filter keepsLine

/-- Whether a text that starts in code ends there. -/
def endsInCode (t : String) : Bool :=
  Place.code.through none t.toList == .code

example : withoutComments "a /* 'b */ '/* c */'\n  /* d\n */\ne" = "a  '/* c */'\ne" := by decide +kernel

/-! ## Reading from code to code -/

/-- A text in front of what follows it brings in no character that neither of them starts with. -/
theorem head?_or_ne {s : List Char} {next : Option Char} {c : Char} (hhead : s.head? ≠ some c)
    (hnext : next ≠ some c) : s.head?.or next ≠ some c := by
  cases s with
  | nil => exact hnext
  | cons d s => exact hhead

/-- Read outside of literals and comments, a text has the marks, and what follows it is read so too. What
follows must not make its last character the start of a comment. -/
def Reads (t : List Char) (x : List (Option Char)) : Prop :=
  ∀ next, next ≠ some '*' → Place.code.marks next t = x ∧ Place.code.through next t = .code

theorem Reads.append {t s : List Char} {x y : List (Option Char)} (ht : Reads t x) (hs : Reads s y)
    (hhead : s.head? ≠ some '*') : Reads (t ++ s) (x ++ y) := by
  intro next hnext
  obtain ⟨hx, hcode⟩ := ht _ (head?_or_ne hhead hnext)
  obtain ⟨hy, hend⟩ := hs next hnext
  exact ⟨by rw [Place.marks_append, hx, hcode, hy], by rw [Place.through_append, hcode, hend]⟩

/-- Whether the character is read as itself outside of literals, whatever follows it. -/
def isPlain (c : Char) : Bool :=
  c != '/' && !opensLiteral c

theorem isPlain_iff {c : Char} : isPlain c = true ↔ c ≠ '/' ∧ opensLiteral c = false := by
  simp [isPlain]

/-- Plain characters may stand before anything. -/
theorem Reads.plain_append {t s : List Char} {x : List (Option Char)} (ht : t.all isPlain = true)
    (hs : Reads s x) : Reads (t ++ s) (t.map some ++ x) := by
  induction t with
  | nil => simpa using hs
  | cons c t ih =>
    intro next hnext
    rw [List.all_cons, Bool.and_eq_true] at ht
    have hplain := isPlain_iff.mp ht.1
    obtain ⟨hx, hcode⟩ := ih ht.2 next hnext
    simp [Place.marks, Place.through, Place.kept, Place.after, hplain, hx, hcode]

theorem reads_of_endsInCode {t : String} (h : endsInCode t = true) :
    Reads t.toList (Place.code.marks none t.toList) :=
  fun _ hnext => Place.read_of_through hnext (beq_iff_eq.mp h)

theorem reads_nil : Reads [] [] :=
  fun _ _ => ⟨rfl, rfl⟩

theorem reads_plain {t : List Char} (ht : t.all isPlain = true) : Reads t (t.map some) := by
  simpa using reads_nil.plain_append ht

theorem Reads.feed_cons {t : List Char} {x : List (Option Char)} (h : Reads ('\n' :: t) x) :
    x = some '\n' :: Place.code.marks none t := by
  rw [← (h none (by simp)).1]
  rfl

/-! ## Literals -/

theorem marks_literalBody (next : Option Char) (cs : List Char) :
    (Place.literal '\'').marks next (literalBody cs ++ ['\'']) =
        (literalBody cs ++ ['\'']).map some ∧
      (Place.literal '\'').through next (literalBody cs ++ ['\'']) = .code := by
  induction cs with
  | nil => exact ⟨rfl, rfl⟩
  | cons c cs ih =>
    obtain ⟨hmarks, hthrough⟩ := ih
    by_cases hc : c = '\\' ∨ c = '\''
    · rcases hc with rfl | rfl <;>
        simp_all [literalBody, literalChar, Place.marks, Place.through, Place.kept, Place.after]
    · have hbody : literalBody (c :: cs) = c :: literalBody cs := by
        simp [literalBody, literalChar, hc]
      simp_all [Place.marks, Place.through, Place.kept, Place.after]

theorem reads_literal (value : String) :
    Reads (literal value).toList ((literal value).toList.map some) := by
  intro next _
  obtain ⟨hmarks, hthrough⟩ := marks_literalBody next value.toList
  have htext : (literal value).toList = '\'' :: (literalBody value.toList ++ ['\'']) := by
    simp [literal]
  rw [htext]
  have hquote : opensLiteral '\'' = true := by decide
  simp [Place.marks, Place.through, Place.kept, Place.after, hquote] at hmarks hthrough ⊢
  exact ⟨hmarks, hthrough⟩

/-! ## Texts in texts -/

theorem occursIn_iff {part t : List Char} : occursIn part t = true ↔ part <:+: t := by
  induction t with
  | nil => simp [occursIn]
  | cons c t ih => rw [occursIn, Bool.or_eq_true, ih, List.isPrefixOf_iff_prefix, List.infix_cons_iff]

theorem occursIn_eq_false_of_infix {part s t : List Char} (hs : s <:+: t)
    (ht : occursIn part t = false) : occursIn part s = false := by
  rw [← Bool.not_eq_true, occursIn_iff] at ht ⊢
  exact fun h => ht (h.trans hs)

/-- Two characters that stand in no half of a text and not at the seam do not stand in it. -/
theorem occursIn_pair_append {a b : Char} {s t : List Char} (hs : occursIn [a, b] s = false)
    (ht : occursIn [a, b] t = false) (h : s.getLast? ≠ some a ∨ t.head? ≠ some b) :
    occursIn [a, b] (s ++ t) = false := by
  induction s with
  | nil => exact ht
  | cons c s ih =>
    rw [occursIn, Bool.or_eq_false_iff] at hs
    cases s with
    | nil =>
      have hseam : [a, b].isPrefixOf (c :: t) = false := by
        cases t with
        | nil => simp [List.isPrefixOf]
        | cons d t =>
          rw [← Bool.not_eq_true, List.isPrefixOf_iff_prefix]
          simp only [List.cons_prefix_cons, List.nil_prefix, and_true, not_and]
          rintro rfl rfl
          simp at h
      rw [List.cons_append, List.nil_append, occursIn, hseam, ht, Bool.or_self]
    | cons d s =>
      have hfront : [a, b].isPrefixOf (c :: d :: (s ++ t)) = false := by
        simpa [List.isPrefixOf] using hs.1
      rw [List.cons_append, occursIn, List.cons_append, hfront, Bool.false_or, ← List.cons_append]
      exact ih hs.2 (by simpa using h)

/-! ## Comments -/

/-- Whether a text is one comment: it is closed nowhere but at its end. -/
def IsComment (t : List Char) : Prop :=
  ∃ body, t = '/' :: '*' :: (body ++ ['*', '/']) ∧ occursIn ['*', '/'] (body ++ ['*']) = false

theorem marks_comment (next : Option Char) {body : List Char}
    (h : occursIn ['*', '/'] (body ++ ['*']) = false) :
    Place.comment.marks next (body ++ ['*', '/']) = [] ∧
      Place.comment.through next (body ++ ['*', '/']) = .code := by
  induction body with
  | nil => exact ⟨rfl, rfl⟩
  | cons c body ih =>
    rw [List.cons_append, occursIn, Bool.or_eq_false_iff] at h
    have hopen : Place.comment.after c ((body ++ ['*', '/']).head?.or next) = .comment := by
      cases body with
      | nil => simp [Place.after]
      | cons d body =>
        have hpair : '*' = c → '/' ≠ d := by simpa [List.isPrefixOf] using h.1
        have hclose : c = '*' → ¬d = '/' := fun hc hd => hpair hc.symm hd.symm
        simpa [Place.after] using hclose
    obtain ⟨hmarks, hthrough⟩ := ih h.2
    exact ⟨by rw [List.cons_append, Place.marks, hopen, hmarks]; rfl,
      by rw [List.cons_append, Place.through, hopen, hthrough]⟩

/-- A comment is one mark. -/
theorem reads_comment {t : List Char} (h : IsComment t) : Reads t [none] := by
  obtain ⟨body, rfl, hbody⟩ := h
  intro next hnext
  obtain ⟨hmarks, hthrough⟩ := marks_comment next hbody
  generalize body ++ ['*', '/'] = rest at hmarks hthrough
  simp [Place.marks, Place.through, Place.kept, Place.after, hmarks, hthrough]

/-- Nothing is left of a comment. -/
theorem linesLeft_comment {t : String} (h : IsComment t.toList) :
    endsInCode t = true ∧ linesLeft t = [] := by
  obtain ⟨hmarks, hthrough⟩ := reads_comment h none (by simp)
  exact ⟨by rw [endsInCode, hthrough]; rfl, by rw [linesLeft, hmarks]; rfl⟩

/-! ## Comments in lines of their own -/

/-- Whether a marked text is the other text with further texts in lines of their own, behind blanks. Of these
the given lines are left. -/
inductive Clears : List (Option Char) → List Char → List (List (Option Char)) → Prop
  | nil : Clears [] [] []
  | char (c : Char) {x : List (Option Char)} {u : List Char} {left : List (List (Option Char))}
    (h : Clears x u left) : Clears (some c :: x) (c :: u) left
  | comment {pad : List Char} (hpad : ∀ c ∈ pad, c = ' ') (comment : List (Option Char))
    {x : List (Option Char)} {u : List Char} {left : List (List (Option Char))}
    (h : Clears (some '\n' :: x) ('\n' :: u) left) :
    Clears (some '\n' :: (pad.map some ++ comment ++ some '\n' :: x)) ('\n' :: u)
      ((comment.splitOn (some '\n')).filter keepsLine ++ left)

theorem Clears.append {x y : List (Option Char)} {u v : List Char} {left more : List (List (Option Char))}
    (hx : Clears x u left) (hy : Clears y v more) : Clears (x ++ y) (u ++ v) (left ++ more) := by
  induction hx with
  | nil => exact hy
  | char c _ ih => exact .char c ih
  | comment hpad comment _ ih => simpa using Clears.comment hpad comment ih

theorem clears_map_some (t : List Char) : Clears (t.map some) t [] := by
  induction t with
  | nil => exact .nil
  | cons c t ih => exact .char c ih

/-- Blanks in front of a line change nothing about whether it is kept. -/
theorem keepsLine_pad_append {pad : List Char} (hpad : ∀ c ∈ pad, c = ' ') (line : List (Option Char)) :
    keepsLine (pad.map some ++ line) = keepsLine line := by
  have hblank : (pad.map some).all (fun c => c.all Text.isBlank) = true := by
    rw [List.all_map, List.all_eq_true]
    exact fun c hc => hpad c hc ▸ by decide
  simp [keepsLine, hblank]

theorem splitOn_feed_cons (x : List (Option Char)) :
    (some '\n' :: x).splitOn (some '\n') = [] :: x.splitOn (some '\n') := by
  simp [List.splitOn_cons_eq_if_modifyHead]

theorem splitOn_pad_append {pad : List Char} (hpad : ∀ c ∈ pad, c = ' ') (x : List (Option Char)) :
    (pad.map some ++ x).splitOn (some '\n') =
      (x.splitOn (some '\n')).modifyHead (pad.map some ++ ·) := by
  induction pad with
  | nil => exact (congrFun List.modifyHead_id _).symm
  | cons c pad ih =>
    obtain ⟨rfl, hrest⟩ := List.forall_mem_cons.mp hpad
    rw [List.map_cons, List.cons_append, List.splitOn_cons_eq_if_modifyHead, if_neg (by decide), ih hrest,
      List.modifyHead_modifyHead]
    rfl

/-- As many lines are left of a text behind blanks as of the text. -/
theorem length_filter_pad_append {pad : List Char} (hpad : ∀ c ∈ pad, c = ' ') (x : List (Option Char)) :
    (((pad.map some ++ x).splitOn (some '\n')).filter keepsLine).length =
      ((x.splitOn (some '\n')).filter keepsLine).length := by
  rw [splitOn_pad_append hpad]
  cases x.splitOn (some '\n') with
  | nil => rfl
  | cons line lines =>
    simp only [List.modifyHead_cons, List.filter_cons, keepsLine_pad_append hpad]
    split <;> simp

/-- The first line of a marked text is one of the other text. Of the others, those that are kept are lines of
the other text and the lines that are left. -/
theorem lines_of_clears {x : List (Option Char)} {u : List Char} {left : List (List (Option Char))}
    (h : Clears x u left) :
    ∃ (first : List (Option Char)) (more kept : List (List (Option Char))),
      x.splitOn (some '\n') = first :: more ∧ none ∉ first ∧
      u = first.reduceOption ++ kept.flatMap (fun line => '\n' :: line.reduceOption) ∧
      kept.Sublist (more.filter keepsLine) ∧
      (more.filter keepsLine).length = kept.length + left.length := by
  -- A comment follows the line feed of its line, so none is in the line that the induction has begun.
  induction h with
  | nil => exact ⟨[], [], [], rfl, by simp, rfl, .slnil, rfl⟩
  | @char c x u left _ ih =>
    obtain ⟨first, more, kept, hsplit, hfirst, rfl, hsub, hlength⟩ := ih
    rw [List.splitOn_cons_eq_if_modifyHead, hsplit]
    by_cases hc : c = '\n'
    · subst hc
      have hkeep : keepsLine first = true := by simp [keepsLine, hfirst]
      refine ⟨[], first :: more, first :: kept, by simp, by simp, by simp, ?_, ?_⟩
      · rw [List.filter_cons_of_pos hkeep]
        exact hsub.cons_cons first
      · rw [List.filter_cons_of_pos hkeep, List.length_cons, List.length_cons, hlength]
        omega
    · exact ⟨some c :: first, more, kept, by simp [hc], by simpa using hfirst, by simp, hsub, hlength⟩
  | @comment pad hpad comment x u left _ ih =>
    obtain ⟨first, more, kept, hsplit, hfirst, hu, hsub, hlength⟩ := ih
    rw [splitOn_feed_cons] at hsplit
    obtain ⟨rfl, rfl⟩ := List.cons.inj hsplit
    refine ⟨[], (pad.map some ++ comment).splitOn (some '\n') ++ x.splitOn (some '\n'), kept, ?_, hfirst, hu,
      ?_, ?_⟩
    · rw [splitOn_feed_cons, List.splitOn_append_cons_self]
    · rw [List.filter_append]
      exact hsub.trans (List.sublist_append_right _ _)
    · rw [List.filter_append, List.length_append, List.length_append, length_filter_pad_append hpad, hlength]
      omega

/-- No line holds the line feeds between the lines. -/
theorem feed_not_mem_of_mem_splitOn {x line : List (Option Char)} (h : line ∈ x.splitOn (some '\n')) :
    some '\n' ∉ line := by
  induction x generalizing line with
  | nil => simp_all
  | cons m x ih =>
    rw [List.splitOn_cons_eq_if_modifyHead] at h
    by_cases hm : m = some '\n'
    · rw [if_pos (beq_iff_eq.mpr hm), List.mem_cons] at h
      rcases h with rfl | h
      · simp
      · exact ih h
    · rw [if_neg (by simpa using hm)] at h
      cases hsplit : x.splitOn (some '\n') with
      | nil => simp [hsplit] at h
      | cons first more =>
        rw [hsplit, List.modifyHead_cons, List.mem_cons] at h
        rcases h with rfl | h
        · have hfirst := ih (hsplit ▸ List.mem_cons_self)
          simp [Ne.symm hm, hfirst]
        · exact ih (hsplit ▸ List.mem_cons_of_mem first h)

theorem intercalate_feed (line : List Char) (lines : List (List Char)) :
    List.intercalate ['\n'] (line :: lines) = line ++ lines.flatMap ('\n' :: ·) := by
  induction lines generalizing line with
  | nil => simp
  | cons next lines ih => rw [List.intercalate_cons_cons, ih]; simp

/-- Texts of lines that are kept are equal only if the lines are. -/
theorem eq_of_intercalate_feed {x : List (Option Char)} {lines more : List (List (Option Char))}
    (hlines : lines.Sublist more) (hmore : more.Sublist (x.splitOn (some '\n'))) (hne : lines ≠ [])
    (h : List.intercalate ['\n'] (lines.map List.reduceOption) =
      List.intercalate ['\n'] (more.map List.reduceOption)) : lines = more := by
  have hfeed : ∀ line ∈ more.map List.reduceOption, '\n' ∉ line := by
    simp only [List.mem_map, forall_exists_index, and_imp, forall_apply_eq_imp_iff₂, List.reduceOption_mem_iff]
    exact fun line hline => feed_not_mem_of_mem_splitOn (hmore.mem hline)
  have hmap : lines.map List.reduceOption = more.map List.reduceOption := by
    rw [← List.splitOn_intercalate '\n' (fun line hline => hfeed line ((hlines.map _).mem hline)) (by simpa using hne),
      h, List.splitOn_intercalate '\n' hfeed]
    rintro hnil
    rw [List.map_eq_nil_iff] at hnil
    exact hne (List.sublist_nil.mp (hnil ▸ hlines))
  exact hlines.eq_of_length (by simpa using congrArg List.length hmap)

/-- Texts in lines of their own are cleared away exactly if no line is left of them. -/
theorem clear_eq_iff {x : List (Option Char)} {u : List Char} {left : List (List (Option Char))}
    (h : Clears (some '\n' :: x) ('\n' :: u) left) : clear x = u ↔ left = [] := by
  obtain ⟨first, more, kept, hsplit, -, hu, hsub, hlength⟩ := lines_of_clears h
  rw [splitOn_feed_cons] at hsplit
  obtain ⟨rfl, rfl⟩ := List.cons.inj hsplit
  have hkept : kept ≠ [] := by
    rintro rfl
    simp at hu
  have htext : u = List.intercalate ['\n'] (kept.map List.reduceOption) := by
    obtain ⟨line, lines, rfl⟩ := List.exists_cons_of_ne_nil hkept
    simpa [intercalate_feed, List.flatMap_map] using hu
  rw [htext, clear]
  constructor
  · intro hclear
    have hall := eq_of_intercalate_feed hsub List.filter_sublist hkept hclear.symm
    rw [← hall] at hlength
    exact List.eq_nil_of_length_eq_zero (by omega)
  · rintro rfl
    rw [hsub.eq_of_length (by simpa using hlength.symm)]

/-! ## Cleared texts -/

/-- Whether a text is read from code to code and is the other text with comments in lines of their own. -/
def Cleared (t u : List Char) (comments : List String) : Prop :=
  ∃ x, Reads t x ∧ Clears x u (comments.flatMap linesLeft)

/-- A text that is kept as it is. -/
theorem cleared_of_reads {t : List Char} (h : Reads t (t.map some)) : Cleared t t [] :=
  ⟨t.map some, h, clears_map_some t⟩

namespace Cleared

variable {s t u v : List Char} {comments more : List String}

theorem append (ht : Cleared t u comments) (hs : Cleared s v more) (hhead : s.head? ≠ some '*') :
    Cleared (t ++ s) (u ++ v) (comments ++ more) := by
  obtain ⟨x, hx, hu⟩ := ht
  obtain ⟨y, hy, hv⟩ := hs
  refine ⟨x ++ y, hx.append hy hhead, ?_⟩
  rw [List.flatMap_append]
  exact hu.append hv

theorem plain_append {r : List Char} (hr : r.all isPlain = true) (hs : Cleared s v comments) :
    Cleared (r ++ s) (r ++ v) comments := by
  obtain ⟨y, hy, hv⟩ := hs
  exact ⟨r.map some ++ y, hy.plain_append hr, (clears_map_some r).append hv⟩

/-- A comment in a line of its own, behind which is code. -/
theorem comment_append {pad : List Char} (hpad : ∀ c ∈ pad, c = ' ') {comment : String}
    (hends : endsInCode comment = true) (h : Cleared ('\n' :: s) ('\n' :: v) comments) :
    Cleared ('\n' :: (pad ++ (comment.toList ++ '\n' :: s))) ('\n' :: v) (comment :: comments) := by
  obtain ⟨x, hreads, hclears⟩ := h
  have hplain : ('\n' :: pad).all isPlain = true := by
    rw [List.all_cons, List.all_eq_true.mpr fun c hc => hpad c hc ▸ by decide]
    rfl
  have hline := ((reads_of_endsInCode hends).append hreads (by simp)).plain_append hplain
  obtain rfl := hreads.feed_cons
  refine ⟨_, hline, ?_⟩
  rw [List.flatMap_cons, linesLeft]
  simpa using Clears.comment hpad _ hclears

end Cleared

/-- A text is cleared of comments in lines of their own exactly if no line is left of them. -/
theorem withoutComments_eq_iff {t u : String} {comments : List String}
    (h : Cleared ('\n' :: t.toList) ('\n' :: u.toList) comments) :
    withoutComments t = u ↔ ∀ comment ∈ comments, linesLeft comment = [] := by
  obtain ⟨x, hreads, hclears⟩ := h
  rw [hreads.feed_cons] at hclears
  rw [← List.flatMap_eq_nil_iff, ← clear_eq_iff hclears, withoutComments, ← String.toList_inj,
    String.toList_ofList]

end SchemaTypes.Declaration
