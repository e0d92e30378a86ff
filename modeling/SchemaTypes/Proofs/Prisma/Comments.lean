import Mathlib.Data.List.TakeWhile
import SchemaTypes.Proofs.Prisma.Joining

/-!
# Comments in a schema

The scan for the brace that closes a block takes a comment to reach to the next line feed. The body of the
block is cut into lines at every line end, and each line is read by itself. Where the slashes stand outside
quotes, both go on behind the comment as if nothing stood there.

Results:
* `closingFrom_comment_append`: the search for a brace goes through a comment.
* `exists_line_of_closing`: above a closing brace some line is no documentation.
* `lineReading_slashes`: what a line holds does not depend on the text of a comment in it.
* `fieldsOfLines_congr`, `enumValues_congr`: lines that hold the same.
-/

namespace SchemaTypes.Prisma

/-- A comment, with the line feed that ends it. -/
def comment (text : List Char) : List Char :=
  '/' :: '/' :: text ++ ['\n']

/-- Whether a comment with this text is no documentation and fills one line. -/
def isCommentText (text : List Char) : Bool :=
  text.head? != some '/' && (Text.splitLines (text ++ ['\n'])).length == 1

/-- Whether a scan is inside quotes. -/
def Mode.inQuotes : Mode → Bool
  | .string | .escape => true
  | .code | .comment => false

theorem no_feed_of_isCommentText {text : List Char} (h : isCommentText text = true) :
    '\n' ∉ text := by
  intro hfeed
  obtain ⟨front, rest, rfl⟩ := List.append_of_mem hfeed
  simp only [isCommentText, Bool.and_eq_true, beq_iff_eq] at h
  have hlines (cs : List Char) : 0 < (Text.splitLines (cs ++ ['\n'])).length :=
    List.length_pos_iff.mpr (Text.splitLines_ne_nil (by simp))
  rw [List.append_assoc, List.cons_append, Text.splitLines_append_feed, List.length_append] at h
  have hfront := hlines front
  have hrest := hlines rest
  omega

/-- The line that the text of a comment is. -/
theorem line_of_isCommentText {text : List Char} (h : isCommentText text = true) :
    ∃ line, Text.splitLines (text ++ ['\n']) = [line] ∧ line.head? ≠ some '/' := by
  simp only [isCommentText, Bool.and_eq_true, beq_iff_eq, bne_iff_ne] at h
  obtain ⟨line, hline⟩ := List.length_eq_one_iff.mp h.2
  refine ⟨line, hline, fun hslash => h.1 ?_⟩
  obtain ⟨rest, hprefix⟩ := (Text.splitLines_infix (text ++ ['\n'])).1 line (by simp [hline])
  obtain ⟨tail, rfl⟩ := List.head?_eq_some_iff.mp hslash
  cases text with
  | nil => simp at hprefix
  | cons c text => simpa using (List.cons.inj hprefix).1.symm

/-! ## Braces -/

section Braces

variable {mode : Mode} {depth : Int}

theorem closingFrom_comment_none {cs : List Char} (h : '\n' ∉ cs) :
    closingFrom braces .comment depth cs = none := by
  induction cs with
  | nil => rfl
  | cons c cs ih =>
    simp only [List.mem_cons, not_or] at h
    rw [closingFrom_cons, if_neg (by simp)]
    simp [Mode.after, Ne.symm h.1, ih h.2]

/-- The two slashes of a comment. -/
theorem closingFrom_slashes (hmode : mode.inQuotes = false) (cs : List Char) :
    closingFrom braces mode depth ('/' :: '/' :: cs) =
      (closingFrom braces .comment depth cs).map (· + 2) := by
  have hslash : braces.depthAfter depth '/' = depth := by simp [Brackets.depthAfter, braces]
  have hfirst : mode.after braces.comments '/' ('/' :: cs).head? = .comment := by
    cases mode with
    | code | comment => rfl
    | string | escape => simp [Mode.inQuotes] at hmode
  have hsecond : Mode.comment.after braces.comments '/' cs.head? = .comment := rfl
  have hend : '/' ≠ braces.closing := by decide
  rw [closingFrom_cons, closingFrom_cons, if_neg fun h => hend h.2.1, if_neg fun h => hend h.2.1,
    hfirst, hsecond, if_neg (by decide), hslash, ite_self, Option.map_map]
  rfl

/-- The search for a brace goes through a comment. -/
theorem closingFrom_comment_append (hmode : mode.inQuotes = false) {text : List Char}
    (htext : '\n' ∉ text) (rest : List Char) :
    closingFrom braces mode depth (comment text ++ rest) =
      (closingFrom braces .code depth rest).map (· + (text.length + 3)) := by
  have hcomment : comment text ++ rest = '/' :: '/' :: (text ++ '\n' :: rest) := by simp [comment]
  rw [hcomment, closingFrom_slashes hmode, closingFrom_comment htext, Option.map_map]
  simp [Function.comp_def, Nat.add_assoc]

theorem closingFrom_take {b : Brackets} {cs : List Char} {n : Nat}
    (h : closingFrom b mode depth cs = some n) :
    closingFrom b mode depth (cs.take (n + 1)) = some n := by
  induction cs generalizing mode depth n with
  | nil => simp [closingFrom] at h
  | cons c cs ih =>
    rw [closingFrom_cons] at h
    rw [List.take_succ_cons, closingFrom_cons]
    split at h
    · rename_i hends
      rwa [if_pos hends]
    · rename_i hgoes
      obtain ⟨k, hk, rfl⟩ := Option.map_eq_some_iff.mp h
      have hahead : (cs.take (k + 1)).head? = cs.head? := by cases cs <;> rfl
      rw [if_neg hgoes, hahead, ih hk]
      rfl

end Braces

/-! ## Lines with comments -/

theorem isPlain_of_isBlank {c : Char} (h : Text.isBlank c = true) : isPlain c = true := by
  have hblanks : ∀ n ∈ Text.blanks, isPlain (Char.ofNat n) = true := by decide +kernel
  have hplain := hblanks c.toNat (by simpa [Text.isBlank] using h)
  rwa [Char.ofNat_toNat] at hplain

theorem blanks_plain (cs : List Char) : (cs.takeWhile Text.isBlank).all isPlain = true :=
  List.all_eq_true.mpr fun c hc =>
    isPlain_of_isBlank (List.all_eq_true.mp List.all_takeWhile c hc)

/-- A line of documentation starts with three slashes behind blanks. -/
theorem slashes_of_docLine? {line : List Char} {doc : String} (h : docLine? line = some doc) :
    ∃ rest, line.dropWhile Text.isBlank = '/' :: '/' :: '/' :: rest := by
  unfold docLine? at h
  split at h
  · rename_i tail htrim
    obtain ⟨more, hmore⟩ := Text.trimEnd_prefix (line.dropWhile Text.isBlank)
    rw [← Text.trim, htrim] at hmore
    exact ⟨tail ++ more, by simpa using hmore.symm⟩
  · simp at h

/-- Some line above a closing brace is no documentation. -/
theorem exists_line_of_closing {cs : List Char} {depth : Int} {n : Nat}
    (h : closingFrom braces .code depth cs = some n) :
    ∃ line ∈ Text.splitLines cs, docLine? line = none := by
  induction hlength : cs.length using Nat.strongRecOn generalizing cs n with
  | _ length ih =>
    subst hlength
    have hne : cs ≠ [] := fun hnil => by simp [hnil, closingFrom] at h
    obtain ⟨line, lines, hlines⟩ := List.exists_cons_of_ne_nil (Text.splitLines_ne_nil hne)
    cases hdoc : docLine? line with
    | none => exact ⟨line, by simp [hlines], hdoc⟩
    | some doc =>
      -- The line is a comment up to the next line feed, and the brace stands below it.
      obtain ⟨tail, htail⟩ := slashes_of_docLine? hdoc
      obtain ⟨more, hmore⟩ := (Text.splitLines_infix cs).1 line (by simp [hlines])
      have hcs : cs = line.takeWhile Text.isBlank ++ '/' :: '/' :: ('/' :: (tail ++ more)) := by
        have hsplit := List.takeWhile_append_dropWhile (p := Text.isBlank) (l := line)
        rw [htail] at hsplit
        calc cs = line ++ more := hmore.symm
          _ = line.takeWhile Text.isBlank ++ '/' :: '/' :: '/' :: tail ++ more := by rw [hsplit]
          _ = _ := by simp
      rw [hcs, passes_plain (blanks_plain line), closingFrom_slashes rfl, Option.map_map] at h
      obtain ⟨k, hk, -⟩ := Option.map_eq_some_iff.mp h
      have hfeed : '\n' ∈ '/' :: (tail ++ more) := by
        by_contra hno
        rw [closingFrom_comment_none hno] at hk
        simp at hk
      obtain ⟨text, rest, hrest, hno⟩ := List.eq_append_cons_of_mem hfeed
      rw [hrest, closingFrom_comment hno] at hk
      obtain ⟨k, hk, -⟩ := Option.map_eq_some_iff.mp hk
      have hjoined : cs = (line.takeWhile Text.isBlank ++ '/' :: '/' :: text) ++ '\n' :: rest := by
        rw [hcs, hrest]
        simp
      obtain ⟨later, hlater, hnone⟩ := ih rest.length (by simp [hjoined]; omega) hk rfl
      refine ⟨later, ?_, hnone⟩
      rw [hjoined, Text.splitLines_append_feed]
      exact List.mem_append_right _ hlater

theorem through_comment {cs : List Char} (h : '\n' ∉ cs) (ahead : Option Char) :
    Mode.comment.through true cs ahead = .comment := by
  induction cs with
  | nil => rfl
  | cons c cs ih =>
    simp only [List.mem_cons, not_or] at h
    rw [Mode.through]
    simpa [Mode.after, Ne.symm h.1] using ih h.2

/-- The comment of a line goes from the slashes that stand outside quotes. -/
theorem stripFrom_slashes {mode : Mode} {cs : List Char} (hfeed : '\n' ∉ cs)
    (hmode : mode ≠ .comment) (hthrough : mode.through true cs (some '/') = .code)
    (line : List Char) : stripFrom mode (cs ++ '/' :: '/' :: line) = cs := by
  induction cs generalizing mode with
  | nil =>
    obtain rfl : mode = .code := hthrough
    simp [stripFrom]
  | cons c cs ih =>
    simp only [List.mem_cons, not_or] at hfeed
    have hahead : (cs ++ '/' :: '/' :: line).head? = cs.head?.or (some '/') := by
      rw [List.head?_append, List.head?_cons]
    have hnext : mode.after true c (cs.head?.or (some '/')) ≠ .comment := by
      intro hcomment
      rw [Mode.through, hcomment, through_comment hfeed.2] at hthrough
      simp at hthrough
    have hsame : mode.after false c (cs.head?.or (some '/')) =
        mode.after true c (cs.head?.or (some '/')) := by
      cases mode with
      | code =>
        have hno : ¬(c = '/' ∧ cs.head?.or (some '/') = some '/') := fun h => hnext (by
          simp [Mode.after, h.1, h.2])
        simp only [Mode.after]
        split
        · rfl
        · simpa using fun h => not_and.mp hno h
      | string | escape => rfl
      | comment => exact absurd rfl hmode
    rw [List.cons_append, stripFrom, hahead, if_neg, hsame, ih hfeed.2 hnext hthrough]
    rintro ⟨rfl, rfl, hslash⟩
    exact hnext (by simp [Mode.after, hslash])

/-- What a line says: its documentation, its content, and whether it is blank. -/
def lineReading (line : List Char) : Option String × Option (List Char) × Bool :=
  (docLine? line, content? line, (Text.trim line).isEmpty)

/-- A text that is not all blank is not empty when it is trimmed. -/
theorem trim_ne_nil {line : List Char} {c : Char} (hmem : c ∈ line) (hc : Text.isBlank c = false) :
    Text.trim line ≠ [] := by
  intro hempty
  have hall := List.dropWhile_eq_nil_iff.mp (List.reverse_eq_nil_iff.mp hempty)
  have hhead := List.head?_dropWhile_not Text.isBlank line
  cases hdrop : line.dropWhile Text.isBlank with
  | nil => simpa [hc] using List.dropWhile_eq_nil_iff.mp hdrop c hmem
  | cons d ds =>
    have hblank := hall d (by simp [hdrop])
    simp [hdrop, hblank] at hhead

section CommentLine

variable {cs : List Char} (hfeed : '\n' ∉ cs)
  (hthrough : Mode.code.through true cs (some '/') = .code)

include hfeed hthrough in
theorem stripComment_slashes (line : List Char) : stripComment (cs ++ '/' :: '/' :: line) = cs :=
  stripFrom_slashes hfeed (by decide) hthrough line

include hfeed hthrough in
theorem docLine?_slashes {line : List Char} (hslash : line.head? ≠ some '/') :
    docLine? (cs ++ '/' :: '/' :: line) = none := by
  rw [Option.eq_none_iff_forall_ne_some]
  intro doc hdoc
  obtain ⟨rest, hrest⟩ := slashes_of_docLine? hdoc
  have hsplit := List.takeWhile_append_dropWhile (p := Text.isBlank) (l := cs ++ '/' :: '/' :: line)
  have hstrip := stripComment_slashes hfeed hthrough line
  -- A third slash before the comment would be a comment already, one behind it starts its text.
  rw [← hsplit, hrest, stripComment, stripFrom_plain (blanks_plain _)] at hstrip
  have hcs : cs = (cs ++ '/' :: '/' :: line).takeWhile Text.isBlank := by
    simpa [stripFrom] using hstrip.symm
  rw [← hcs, hrest] at hsplit
  have hline := List.append_cancel_left hsplit
  simp only [List.cons.injEq, true_and] at hline
  exact hslash (by simp [← hline])

include hfeed hthrough in
/-- A line says nothing in its comment. -/
theorem lineReading_slashes {line line' : List Char} (hslash : line.head? ≠ some '/')
    (hslash' : line'.head? ≠ some '/') :
    lineReading (cs ++ '/' :: '/' :: line) = lineReading (cs ++ '/' :: '/' :: line') := by
  have hsolid (more : List Char) : (Text.trim (cs ++ '/' :: '/' :: more)).isEmpty = false := by
    have hslash : '/' ∈ cs ++ '/' :: '/' :: more := by simp
    simpa using trim_ne_nil hslash (by decide)
  simp only [lineReading, content?, docLine?_slashes hfeed hthrough hslash,
    docLine?_slashes hfeed hthrough hslash', stripComment_slashes hfeed hthrough, hsolid]

end CommentLine

/-- The fields of lines depend on what the lines say. -/
theorem fieldsOfLines_congr (enums : List RawEnum) {lines lines' : List (List Char)}
    (h : lines.map lineReading = lines'.map lineReading) (number : Nat) (docs : List String) :
    fieldsOfLines enums number docs lines = fieldsOfLines enums number docs lines' := by
  induction lines generalizing lines' number docs with
  | nil => simp_all
  | cons line lines ih =>
    obtain ⟨line', lines', rfl, hline, hlines⟩ := List.map_eq_cons_iff.mp h.symm
    simp only [lineReading, Prod.mk.injEq] at hline
    obtain ⟨hdoc, hcontent, hblank⟩ := hline
    simp only [fieldsOfLines, FieldLine.ofLine, hdoc, hcontent, hblank, ih hlines.symm]

theorem enumValues_congr {lines lines' : List (List Char)}
    (h : lines.map lineReading = lines'.map lineReading) : enumValues lines = enumValues lines' := by
  induction lines generalizing lines' with
  | nil => simp_all
  | cons line lines ih =>
    obtain ⟨line', lines', rfl, hline, hlines⟩ := List.map_eq_cons_iff.mp h.symm
    simp only [lineReading, Prod.mk.injEq] at hline
    simp only [enumValues, hline.2.1, ih hlines.symm]

end SchemaTypes.Prisma
