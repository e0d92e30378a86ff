import Mathlib.Data.List.TakeWhile
import Mathlib.Tactic.Conv
import SchemaTypes.Path

/-!
# Texts of paths

A text that is read as a path is cut at its separators. What stands before the last one leads to a directory,
and what stands behind it is a name there. A path that was read from a text has a root that a text can have and
components that a separator cannot cut and that lead somewhere, and so has every path that is made from such
paths. Its own text is read as the same path, so two such paths with one text are the same.

Results:
* `ofString_eq_child`: a path that ends in a component is that component in the directory before it.
* `isCanonical_ofString`, `IsCanonical.join`: what paths that are read from texts look like.
* `ofString_toString`, `toString_inj_of_isCanonical`: such a path is known by its text.
-/

namespace SchemaTypes

namespace Path

/-! ## The last separator -/

/-- The text of a path up to its last separator. -/
def directoryText (s : String) : String :=
  String.ofList (s.toList.reverse.dropWhile (· != '/')).reverse

/-- The text of a path behind its last separator. -/
def baseText (s : String) : String :=
  String.ofList (s.toList.reverse.takeWhile (· != '/')).reverse

theorem directoryText_append_baseText (s : String) : directoryText s ++ baseText s = s := by
  have hsplit := congrArg List.reverse
    (List.takeWhile_append_dropWhile (p := (· != '/')) (l := s.toList.reverse))
  rw [List.reverse_append, List.reverse_reverse] at hsplit
  rw [directoryText, baseText, ← String.ofList_append, hsplit, String.ofList_toList]

theorem separator_not_mem_baseText (s : String) : '/' ∉ (baseText s).toList := by
  rw [baseText, String.toList_ofList, List.mem_reverse]
  intro h
  simpa using List.mem_takeWhile_imp h

theorem directoryText_cases (s : String) :
    directoryText s = "" ∨ ∃ cs, (directoryText s).toList = cs ++ ['/'] := by
  unfold directoryText
  rw [String.toList_ofList]
  cases h : s.toList.reverse.dropWhile (· != '/') with
  | nil => exact Or.inl rfl
  | cons c cs =>
    have hc : c = '/' := by
      have hhead := List.head?_dropWhile_not (· != '/') s.toList.reverse
      rw [h] at hhead
      simpa using hhead
    exact Or.inr ⟨cs.reverse, by simp [hc]⟩

theorem directoryText_of_no_separator {s : String} (h : '/' ∉ s.toList) : directoryText s = "" := by
  have hall : s.toList.reverse.dropWhile (· != '/') = [] := by
    rw [List.dropWhile_eq_nil_iff]
    intro c hc
    have hne : c ≠ '/' := by
      rintro rfl
      exact h (List.mem_reverse.mp hc)
    simpa using hne
  rw [directoryText, hall]
  rfl

theorem baseText_of_no_separator {s : String} (h : '/' ∉ s.toList) : baseText s = s := by
  have hsplit := directoryText_append_baseText s
  rwa [directoryText_of_no_separator h, String.empty_append] at hsplit

/-! ## Pieces -/

theorem splitAtChar_ne_nil (sep : Char) (cs : List Char) : splitAtChar sep cs ≠ [] := by
  cases cs with
  | nil => simp [splitAtChar]
  | cons c cs =>
    rw [splitAtChar]
    split
    · simp
    · split <;> simp

theorem splitAtChar_append (sep : Char) (cs ds : List Char) :
    splitAtChar sep (cs ++ sep :: ds) = splitAtChar sep cs ++ splitAtChar sep ds := by
  induction cs with
  | nil => simp [splitAtChar]
  | cons c cs ih =>
    by_cases hc : c = sep
    · simp [splitAtChar, hc, ih]
    · obtain ⟨piece, pieces, hcs⟩ := List.exists_cons_of_ne_nil (splitAtChar_ne_nil sep cs)
      simp [splitAtChar, hc, ih, hcs]

theorem splitAtChar_of_not_mem {sep : Char} {cs : List Char} (h : sep ∉ cs) :
    splitAtChar sep cs = [cs] := by
  induction cs with
  | nil => rfl
  | cons c cs ih =>
    rw [List.mem_cons, not_or] at h
    simp [splitAtChar, Ne.symm h.1, ih h.2]

/-- A text behind a separator is a component, unless it leads nowhere. -/
theorem components_append {cs base : List Char} (hbase : '/' ∉ base) (hne : base ≠ [])
    (hdot : base ≠ ['.']) :
    components (cs ++ '/' :: base) = components (cs ++ ['/']) ++ [String.ofList base] := by
  have hkept : (String.ofList base != "" && String.ofList base != ".") = true := by
    simp [← String.toList_inj, hne, hdot]
  simp only [components, splitAtChar_append, splitAtChar_of_not_mem hbase, splitAtChar, List.map_append,
    List.filter_append, List.map_cons, List.map_nil, List.filter_cons, hkept, if_true]
  simp

theorem components_of_not_mem {base : List Char} (hbase : '/' ∉ base) (hne : base ≠ [])
    (hdot : base ≠ ['.']) : components base = [String.ofList base] := by
  have hkept : (String.ofList base != "" && String.ofList base != ".") = true := by
    simp [← String.toList_inj, hne, hdot]
  simp [components, splitAtChar_of_not_mem hbase, hkept]

/-- The first three characters decide about the root. -/
theorem rootOf_take (a b c : Char) (rest : List Char) :
    rootOf (a :: b :: c :: rest) = rootOf [a, b, c] := by
  by_cases ha : a = '/' <;> by_cases hb : b = '/' <;> by_cases hc : c = '/' <;>
    simp [rootOf, ha, hb, hc]

theorem rootOf_of_not_mem {cs : List Char} (h : '/' ∉ cs) : rootOf cs = "" := by
  cases cs with
  | nil => rfl
  | cons c cs =>
    have hc : c ≠ '/' := fun heq => h (heq ▸ List.mem_cons_self)
    simp [rootOf, hc]

theorem rootOf_append {cs base : List Char} (hbase : '/' ∉ base) :
    rootOf (cs ++ '/' :: base) = rootOf (cs ++ ['/']) := by
  cases base with
  | nil => rfl
  | cons b base =>
    have hb : b ≠ '/' := fun heq => hbase (heq ▸ List.mem_cons_self)
    match cs with
    | [] => simp [rootOf, hb]
    | [a] => by_cases ha : a = '/' <;> simp [rootOf, ha, hb]
    | [a, a'] => simp [rootOf_take a a' '/']
    | a :: a' :: a'' :: cs => simp [rootOf_take a a' a'']

/-- A path that ends in a component is that component in the directory before it. -/
theorem ofString_eq_child {s base : String} (hbase : baseText s = base) (hne : base ≠ "")
    (hdot : base ≠ ".") : ofString s = (ofString (directoryText s)).child base := by
  subst hbase
  have hnot := separator_not_mem_baseText s
  have hsplit := directoryText_append_baseText s
  have hne' : (baseText s).toList ≠ "".toList := fun h => hne (String.toList_inj.mp h)
  have hdot' : (baseText s).toList ≠ ".".toList := fun h => hdot (String.toList_inj.mp h)
  rcases directoryText_cases s with hdirectory | ⟨cs, hdirectory⟩
  · rw [hdirectory, String.empty_append] at hsplit
    rw [hsplit] at hnot hne' hdot'
    rw [ofString, rootOf_of_not_mem hnot, components_of_not_mem hnot hne' hdot', hdirectory, hsplit,
      String.ofList_toList]
    rfl
  · have hs : s.toList = cs ++ '/' :: (baseText s).toList := by
      conv_lhs => rw [← hsplit, String.toList_append, hdirectory]
      simp
    rw [ofString, ofString, hs, hdirectory, rootOf_append hnot, components_append hnot hne' hdot',
      String.ofList_toList]
    rfl

theorem join_child (p q : Path) (name : String) : p.join (q.child name) = (p.join q).child name := by
  have habsolute : (q.child name).isAbsolute = q.isAbsolute := rfl
  unfold join
  rw [habsolute]
  split
  · rfl
  · simp [child]

theorem joinText_empty (p : Path) : p.joinText "" = p := by
  have hempty : ofString "" = ⟨"", []⟩ := by decide
  simp [joinText, join, hempty, isAbsolute]

theorem parent_child (p : Path) (name : String) : (p.child name).parent = p := by
  simp [parent, child]

theorem child_inj {p q : Path} {name other : String} :
    p.child name = q.child other ↔ p = q ∧ name = other := by
  cases p
  cases q
  simp [child, and_assoc]

/-! ## Canonical paths -/

/-- A path as it is read from a text: no component is empty, leads nowhere or holds a separator, and the root is
one that a text can have. -/
structure IsCanonical (p : Path) : Prop where
  root : p.root = "" ∨ p.root = "/" ∨ p.root = "//"
  parts : ∀ part ∈ p.parts, part ≠ "" ∧ part ≠ "." ∧ '/' ∉ part.toList

theorem not_mem_of_mem_splitAtChar {sep : Char} {cs piece : List Char} (h : piece ∈ splitAtChar sep cs) :
    sep ∉ piece := by
  induction cs generalizing piece with
  | nil =>
    rw [splitAtChar, List.mem_singleton] at h
    simp [h]
  | cons c cs ih =>
    by_cases hc : c = sep
    · rw [splitAtChar, if_pos hc, List.mem_cons] at h
      rcases h with rfl | h
      · simp
      · exact ih h
    · obtain ⟨first, pieces, hcs⟩ := List.exists_cons_of_ne_nil (splitAtChar_ne_nil sep cs)
      rw [splitAtChar, if_neg hc, hcs, List.mem_cons] at h
      rw [hcs] at ih
      rcases h with rfl | h
      · rw [List.mem_cons, not_or]
        exact ⟨Ne.symm hc, ih List.mem_cons_self⟩
      · exact ih (List.mem_cons_of_mem _ h)

theorem rootOf_cases (cs : List Char) : rootOf cs = "" ∨ rootOf cs = "/" ∨ rootOf cs = "//" := by
  unfold rootOf
  split <;> simp

theorem isCanonical_ofString (s : String) : (ofString s).IsCanonical where
  root := rootOf_cases s.toList
  parts := by
    intro part hpart
    rw [ofString, components, List.mem_filter] at hpart
    obtain ⟨hmem, hkept⟩ := hpart
    obtain ⟨piece, hpiece, rfl⟩ := List.mem_map.mp hmem
    rw [Bool.and_eq_true, bne_iff_ne, bne_iff_ne] at hkept
    refine ⟨hkept.1, hkept.2, ?_⟩
    rw [String.toList_ofList]
    exact not_mem_of_mem_splitAtChar hpiece

theorem IsCanonical.join {p q : Path} (hp : p.IsCanonical) (hq : q.IsCanonical) :
    (p.join q).IsCanonical := by
  unfold Path.join
  split
  · exact hq
  · refine ⟨hp.root, fun part hpart => ?_⟩
    rcases List.mem_append.mp hpart with hpart | hpart
    · exact hp.parts part hpart
    · exact hq.parts part hpart

theorem IsCanonical.joinText {p : Path} (hp : p.IsCanonical) (s : String) :
    (p.joinText s).IsCanonical :=
  hp.join (isCanonical_ofString s)

/-! ## The text of a canonical path -/

theorem components_separator (cs ds : List Char) :
    components (cs ++ '/' :: ds) = components cs ++ components ds := by
  rw [components, splitAtChar_append, List.map_append, List.filter_append]
  rfl

theorem toList_intercalate_cons (first : String) {parts : List String} (h : parts ≠ []) :
    ("/".intercalate (first :: parts)).toList = first.toList ++ '/' :: ("/".intercalate parts).toList := by
  rw [String.intercalate_cons_of_ne_nil h, String.toList_append, String.toList_append]
  simp

theorem components_intercalate {parts : List String}
    (h : ∀ part ∈ parts, part ≠ "" ∧ part ≠ "." ∧ '/' ∉ part.toList) :
    components ("/".intercalate parts).toList = parts := by
  have hone {part : String} (hne : part ≠ "") (hdot : part ≠ ".") (hbase : '/' ∉ part.toList) :
      components part.toList = [part] := by
    rw [components_of_not_mem hbase (fun heq => hne (String.toList_inj.mp heq))
      (fun heq => hdot (String.toList_inj.mp heq)), String.ofList_toList]
  induction parts with
  | nil => decide
  | cons first parts ih =>
    rw [List.forall_mem_cons] at h
    obtain ⟨⟨hne, hdot, hbase⟩, hrest⟩ := h
    cases parts with
    | nil => simpa using hone hne hdot hbase
    | cons second parts =>
      rw [toList_intercalate_cons first (List.cons_ne_nil second parts), components_separator,
        hone hne hdot hbase, ih hrest, List.singleton_append]

/-- The text of components does not start with a separator. -/
theorem head?_intercalate_ne {parts : List String}
    (h : ∀ part ∈ parts, part ≠ "" ∧ part ≠ "." ∧ '/' ∉ part.toList) :
    ("/".intercalate parts).toList.head? ≠ some '/' := by
  cases parts with
  | nil => simp
  | cons first parts =>
    obtain ⟨hne, -, hbase⟩ := h first List.mem_cons_self
    have htext : ∃ rest, ("/".intercalate (first :: parts)).toList = first.toList ++ rest := by
      cases parts with
      | nil => exact ⟨[], by simp⟩
      | cons second parts => exact ⟨_, toList_intercalate_cons first (List.cons_ne_nil second parts)⟩
    obtain ⟨rest, htext⟩ := htext
    obtain ⟨c, cs, hfirst⟩ := List.exists_cons_of_ne_nil fun hnil => hne (String.toList_eq_nil_iff.mp hnil)
    rw [htext, hfirst, List.cons_append, List.head?_cons]
    rintro ⟨⟩
    exact hbase (hfirst ▸ List.mem_cons_self)

section Root

variable {root : String} {cs : List Char}

theorem rootOf_root_append (hroot : root = "" ∨ root = "/" ∨ root = "//") (hcs : cs.head? ≠ some '/') :
    rootOf (root.toList ++ cs) = root := by
  cases cs with
  | nil => rcases hroot with rfl | rfl | rfl <;> decide
  | cons c cs =>
    have hc : c ≠ '/' := fun heq => hcs (heq ▸ rfl)
    rcases hroot with rfl | rfl | rfl <;> simp [rootOf, hc]

theorem components_root_append (hroot : root = "" ∨ root = "/" ∨ root = "//") :
    components (root.toList ++ cs) = components cs := by
  have hskip (cs : List Char) : components ('/' :: cs) = components cs := components_separator [] cs
  rcases hroot with rfl | rfl | rfl
  · rfl
  · exact hskip cs
  · exact (hskip _).trans (hskip cs)

end Root

/-- The text of a canonical path is read as the path. -/
theorem ofString_toString {p : Path} (h : p.IsCanonical) : ofString p.toString = p := by
  obtain ⟨root, parts⟩ := p
  obtain ⟨hroot, hparts⟩ := h
  rw [toString]
  split
  · rename_i hempty
    rw [Bool.and_eq_true, beq_iff_eq, List.isEmpty_iff] at hempty
    obtain ⟨rfl, rfl⟩ := hempty
    decide
  · rw [ofString, String.toList_append, rootOf_root_append hroot (head?_intercalate_ne hparts),
      components_root_append hroot, components_intercalate hparts]

/-- Canonical paths with one text are the same. -/
theorem toString_inj_of_isCanonical {p q : Path} (hp : p.IsCanonical) (hq : q.IsCanonical) :
    p.toString = q.toString ↔ p = q := by
  refine ⟨fun h => ?_, fun h => h ▸ rfl⟩
  rw [← ofString_toString hp, h, ofString_toString hq]

end Path

end SchemaTypes
