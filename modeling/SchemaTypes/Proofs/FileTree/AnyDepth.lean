import Mathlib.Data.List.Infix
import SchemaTypes.FileTree.Search
import SchemaTypes.Proofs.FileTree.PathText

/-!
# Patterns for any depth

The elements of a pattern describe a text one after the other: a star takes any run of characters, and every other
element takes one. A pattern behind `**/` describes a path if it describes the path or what stands behind one of its
separators, which are the paths of its last components.

Results:
* `matchTokens_iff`: the matcher finds the texts that the elements describe.
* `describesPath_anyDepth`: what a pattern behind `**/` describes, also where that pattern starts with `**/` itself.
* `isTail_intercalate_iff`: the tails of a path are the paths of its last components.
* `describesPath_last_iff`: a name behind `**/` describes the paths that end with it.
* `describesPath_within_iff`: a name between `**/` and `/**` describes what stands at any depth of a directory of
  that name.
-/

namespace SchemaTypes.Glob

/-! ## What elements describe -/

/-- The elements describe the whole text, one after the other. -/
inductive Describes : List Token → List Char → Prop
  | nil : Describes [] []
  | star {tokens : List Token} {back : List Char} (front : List Char) (h : Describes tokens back) :
      Describes (.star :: tokens) (front ++ back)
  | any {tokens : List Token} {cs : List Char} (c : Char) (h : Describes tokens cs) :
      Describes (.any :: tokens) (c :: cs)
  | set {tokens : List Token} {cs : List Char} {s : CharSet} {c : Char} (hc : s.holds c = true)
      (h : Describes tokens cs) : Describes (.set s :: tokens) (c :: cs)
  | char {tokens : List Token} {cs : List Char} (c : Char) (h : Describes tokens cs) :
      Describes (.char c :: tokens) (c :: cs)

variable {tokens : List Token} {text tail : List Char}

theorem describes_nil_iff : Describes [] text ↔ text = [] := by
  constructor
  · rintro ⟨⟩
    rfl
  · rintro rfl
    exact .nil

theorem describes_star_iff :
    Describes (.star :: tokens) text ↔ ∃ front back, text = front ++ back ∧ Describes tokens back := by
  constructor
  · rintro (_ | ⟨front, h⟩)
    exact ⟨front, _, rfl, h⟩
  · rintro ⟨front, back, rfl, h⟩
    exact .star front h

theorem describes_any_iff :
    Describes (.any :: tokens) text ↔ ∃ c cs, text = c :: cs ∧ Describes tokens cs := by
  constructor
  · rintro (_ | _ | ⟨c, h⟩)
    exact ⟨c, _, rfl, h⟩
  · rintro ⟨c, cs, rfl, h⟩
    exact .any c h

theorem describes_set_iff {s : CharSet} :
    Describes (.set s :: tokens) text ↔
      ∃ c cs, text = c :: cs ∧ s.holds c = true ∧ Describes tokens cs := by
  constructor
  · rintro (_ | _ | _ | ⟨hc, h⟩)
    exact ⟨_, _, rfl, hc, h⟩
  · rintro ⟨c, cs, rfl, hc, h⟩
    exact .set hc h

theorem describes_char_iff {c : Char} :
    Describes (.char c :: tokens) text ↔ ∃ cs, text = c :: cs ∧ Describes tokens cs := by
  constructor
  · rintro (_ | _ | _ | _ | ⟨_, h⟩)
    exact ⟨_, rfl, h⟩
  · rintro ⟨cs, rfl, h⟩
    exact .char c h

theorem someSuffix_iff {p : List Char → Bool} :
    someSuffix p text = true ↔ ∃ front back, text = front ++ back ∧ p back = true := by
  induction text with
  | nil => simp [someSuffix]
  | cons c cs ih =>
    rw [someSuffix, Bool.or_eq_true, ih]
    constructor
    · rintro (h | ⟨front, back, rfl, h⟩)
      · exact ⟨[], c :: cs, rfl, h⟩
      · exact ⟨c :: front, back, rfl, h⟩
    · rintro ⟨_ | ⟨d, front⟩, back, hsplit, h⟩
      · exact Or.inl (hsplit ▸ h)
      · exact Or.inr ⟨front, back, (List.cons.inj hsplit).2, h⟩

/-- The matcher finds the texts that the elements describe. -/
theorem matchTokens_iff : matchTokens tokens text = true ↔ Describes tokens text := by
  induction tokens generalizing text with
  | nil => rw [matches_nil, List.isEmpty_iff, describes_nil_iff]
  | cons token tokens ih =>
    cases token with
    | star => simp only [matchTokens, someSuffix_iff, describes_star_iff, ih]
    | any => cases text <;> simp [matchTokens, describes_any_iff, ih]
    | set s => cases text <;> simp [matchTokens, describes_set_iff, ih]
    | char c => cases text <;> simp [matchTokens, describes_char_iff, ih, and_assoc]

/-! ## Any depth -/

/-- A tail of a path: the path itself or what stands behind one of its separators. -/
def IsTail (tail text : List Char) : Prop :=
  tail = text ∨ ∃ front, text = front ++ '/' :: tail

theorem IsTail.refl (text : List Char) : IsTail text text :=
  Or.inl rfl

theorem IsTail.behind {front : List Char} (h : IsTail tail text) : IsTail tail (front ++ '/' :: text) := by
  rcases h with rfl | ⟨more, rfl⟩
  · exact Or.inr ⟨front, rfl⟩
  · exact Or.inr ⟨front ++ '/' :: more, by simp⟩

theorem parse_anyDepth (pattern : List Char) :
    parse ('*' :: '*' :: '/' :: pattern) = .star :: .star :: .char '/' :: parse pattern := by
  rw [parse, parse, parse]
  all_goals simp

/-- Two stars and a separator take a text up to any of its separators. -/
theorem describes_anyDepth_iff :
    Describes (.star :: .star :: .char '/' :: tokens) text ↔
      ∃ front back, text = front ++ '/' :: back ∧ Describes tokens back := by
  simp only [describes_star_iff, describes_char_iff]
  constructor
  · rintro ⟨front, _, rfl, more, _, rfl, back, rfl, h⟩
    exact ⟨front ++ more, back, by simp, h⟩
  · rintro ⟨front, back, rfl, h⟩
    exact ⟨front, _, rfl, [], _, rfl, back, rfl, h⟩

theorem matchTokens_anyDepth_iff {pattern : List Char} :
    matchTokens (parse ('*' :: '*' :: '/' :: pattern)) text = true ↔
      ∃ front back, text = front ++ '/' :: back ∧ matchTokens (parse pattern) back = true := by
  simp only [parse_anyDepth, matchTokens_iff, describes_anyDepth_iff]

theorem matchesPath_of_matchTokens {pattern : List Char} (h : matchTokens (parse pattern) text = true) :
    matchesPath text pattern = true := by
  unfold matchesPath
  split
  · rw [h, Bool.true_or]
  · exact h

theorem matchesPath_anyDepth (text pattern : List Char) :
    matchesPath text ('*' :: '*' :: '/' :: pattern) =
      (matchTokens (parse ('*' :: '*' :: '/' :: pattern)) text || matchesPath text pattern) := by
  rw [matchesPath]

/-- Behind `**/` a pattern describes what has a tail that it describes. The pattern may start with `**/` itself, so
the induction follows its recursion. -/
theorem matchesPath_of_isTail {pattern : List Char} (htail : IsTail tail text)
    (h : matchesPath tail pattern = true) : matchesPath text ('*' :: '*' :: '/' :: pattern) = true := by
  rw [matchesPath_anyDepth, Bool.or_eq_true]
  rcases htail with rfl | ⟨front, rfl⟩
  · exact Or.inr h
  · induction pattern using matchesPath.induct with
    | case1 rest ih =>
      rw [matchesPath_anyDepth, Bool.or_eq_true] at h
      rcases h with h | h
      · exact Or.inl (matchTokens_anyDepth_iff.mpr ⟨front, tail, rfl, h⟩)
      · refine Or.inr ?_
        rw [matchesPath_anyDepth, Bool.or_eq_true]
        exact ih h
    | case2 pattern hpattern =>
      rw [matchesPath] at h
      · exact Or.inl (matchTokens_anyDepth_iff.mpr ⟨front, tail, rfl, h⟩)
      · exact hpattern

theorem exists_isTail_of_matchesPath {pattern : List Char}
    (h : matchesPath text ('*' :: '*' :: '/' :: pattern) = true) :
    ∃ tail, IsTail tail text ∧ matchesPath tail pattern = true := by
  rw [matchesPath_anyDepth, Bool.or_eq_true, matchTokens_anyDepth_iff] at h
  rcases h with ⟨front, back, rfl, hback⟩ | h
  · exact ⟨back, Or.inr ⟨front, rfl⟩, matchesPath_of_matchTokens hback⟩
  · exact ⟨text, IsTail.refl text, h⟩

/-- A pattern behind `**/` goes by the tails of a path. -/
theorem describesPath_tail_iff {path pattern : String} :
    describesPath path ("**/" ++ pattern) = true ↔
      ∃ tail, IsTail tail path.toList ∧ matchesPath tail pattern.toList = true := by
  have hpattern : ("**/" ++ pattern).toList = '*' :: '*' :: '/' :: pattern.toList := by
    rw [String.toList_append]
    rfl
  rw [describesPath, hpattern]
  exact ⟨exists_isTail_of_matchesPath, fun ⟨_, htail, hmatch⟩ => matchesPath_of_isTail htail hmatch⟩

/-- A pattern behind `**/` describes the paths with a tail that the pattern describes. -/
theorem describesPath_anyDepth {path pattern : String} :
    describesPath path ("**/" ++ pattern) = true ↔
      ∃ tail : String, IsTail tail.toList path.toList ∧ describesPath tail pattern = true := by
  rw [describesPath_tail_iff]
  constructor
  · rintro ⟨tail, htail, hmatch⟩
    exact ⟨String.ofList tail, by rwa [String.toList_ofList], by rwa [describesPath, String.toList_ofList]⟩
  · rintro ⟨tail, htail, hmatch⟩
    exact ⟨tail.toList, htail, hmatch⟩

/-! ## Components -/

theorem isTail_of_not_mem {first : List Char} (h : '/' ∉ first) : IsTail tail first ↔ tail = first := by
  refine ⟨?_, Or.inl⟩
  rintro (rfl | ⟨front, rfl⟩)
  · rfl
  · exact absurd (by simp) h

/-- A tail of a path with a component in front starts with that component, unless it stands behind it. -/
theorem isTail_cons_iff {first : List Char} (h : '/' ∉ first) :
    IsTail tail (first ++ '/' :: text) ↔ tail = first ++ '/' :: text ∨ IsTail tail text := by
  constructor
  · rintro (rfl | ⟨front, hsplit⟩)
    · exact Or.inl rfl
    · refine Or.inr ?_
      rcases List.append_eq_append_iff.mp hsplit with ⟨more, rfl, hmore⟩ | ⟨more, rfl, hmore⟩
      · cases more with
        | nil => exact Or.inl (List.cons.inj hmore).2.symm
        | cons c more => exact Or.inr ⟨more, (List.cons.inj hmore).2⟩
      · cases more with
        | nil => exact Or.inl (List.cons.inj hmore).2
        | cons c more =>
          rw [← (List.cons.inj hmore).1] at h
          exact absurd (by simp) h
  · rintro (rfl | htail)
    · exact IsTail.refl _
    · exact htail.behind

theorem takeWhile_separator {first : List Char} (h : '/' ∉ first) (rest : List Char) :
    (first ++ '/' :: rest).takeWhile (· != '/') = first := by
  have hfirst : ∀ c ∈ first, (c != '/') = true := fun c hc => bne_iff_ne.mpr fun heq => h (heq ▸ hc)
  rw [List.takeWhile_append_of_pos hfirst]
  simp

/-- The path of the last components is a tail of the path. -/
theorem isTail_of_suffix {last trail : List String} (hne : last ≠ []) (h : last <:+ trail) :
    IsTail ("/".intercalate last).toList ("/".intercalate trail).toList := by
  obtain ⟨front, rfl⟩ := h
  rcases List.eq_nil_or_concat front with rfl | ⟨_, _, hfront⟩
  · exact IsTail.refl _
  · have hfront : front ≠ [] := by simp [hfront]
    refine Or.inr ⟨("/".intercalate front).toList, ?_⟩
    rw [String.intercalate_append_of_ne_nil hfront hne, String.toList_append, String.toList_append]
    simp

/-- The tails of a path are the paths of its last components. -/
theorem isTail_intercalate_iff {trail : List String} (hne : trail ≠ [])
    (h : ∀ part ∈ trail, '/' ∉ part.toList) :
    IsTail tail ("/".intercalate trail).toList ↔
      ∃ last, last ≠ [] ∧ last <:+ trail ∧ tail = ("/".intercalate last).toList := by
  constructor
  · intro htail
    induction trail with
    | nil => exact absurd rfl hne
    | cons first trail ih =>
      rw [List.forall_mem_cons] at h
      by_cases hrest : trail = []
      · rw [hrest, String.intercalate_singleton, isTail_of_not_mem h.1] at htail
        exact ⟨[first], List.cons_ne_nil _ _, by rw [hrest], by rw [htail, String.intercalate_singleton]⟩
      · rw [Path.toList_intercalate_cons first hrest, isTail_cons_iff h.1] at htail
        rcases htail with rfl | htail
        · exact ⟨first :: trail, List.cons_ne_nil _ _, List.suffix_rfl, by rw [Path.toList_intercalate_cons first hrest]⟩
        · obtain ⟨last, hlast, hsuffix, rfl⟩ := ih hrest h.2 htail
          exact ⟨last, hlast, hsuffix.trans (List.suffix_cons first trail), rfl⟩
  · rintro ⟨last, hlast, hsuffix, rfl⟩
    exact isTail_of_suffix hlast hsuffix

/-! ## Names in patterns -/

/-- A name that stands for itself in a pattern. -/
def IsPlain (name : List Char) : Prop :=
  ∀ c ∈ name, c ≠ '*' ∧ c ≠ '?' ∧ c ≠ '['

instance (name : List Char) : Decidable (IsPlain name) :=
  List.decidableBAll (fun c => c ≠ '*' ∧ c ≠ '?' ∧ c ≠ '[') name

theorem parse_plain {name : List Char} (h : IsPlain name) (pattern : List Char) :
    parse (name ++ pattern) = name.map Token.char ++ parse pattern := by
  induction name with
  | nil => rfl
  | cons c name ih =>
    obtain ⟨⟨hstar, hany, hset⟩, hname⟩ := List.forall_mem_cons.mp h
    rw [List.cons_append, parse, ih hname]
    · rfl
    · exact hstar
    · exact hany
    · exact hset

theorem describes_plain_iff {name : List Char} :
    Describes (name.map Token.char ++ tokens) text ↔ ∃ rest, text = name ++ rest ∧ Describes tokens rest := by
  induction name generalizing text with
  | nil => simp
  | cons c name ih => simp [describes_char_iff, ih]

theorem describes_stars (text : List Char) : Describes [.star, .star] text := by
  have h : Describes [.star, .star] (text ++ ([] ++ [])) := .star text (.star [] .nil)
  rwa [List.append_nil, List.append_nil] at h

/-- A pattern with a plain name in front describes what its elements describe. -/
theorem matchesPath_plain_iff {name pattern : List Char} (h : IsPlain name)
    (hpattern : pattern.head? ≠ some '*') :
    matchesPath text (name ++ pattern) = true ↔ ∃ rest, text = name ++ rest ∧ Describes (parse pattern) rest := by
  rw [matchesPath, matchTokens_iff, parse_plain h, describes_plain_iff]
  intro rest hrest
  cases name with
  | nil => exact hpattern (congrArg List.head? hrest)
  | cons c name => exact (h c List.mem_cons_self).1 (List.cons.inj hrest).1

/-- A name describes itself. -/
theorem matchesPath_name_iff {name : List Char} (h : IsPlain name) :
    matchesPath text name = true ↔ text = name := by
  rw [← List.append_nil name, matchesPath_plain_iff h (by decide)]
  simp [parse, describes_nil_iff]

/-- A name in front of `/**` describes what starts with a directory of that name. -/
theorem matchesPath_directory_iff {name : List Char} (h : IsPlain name) :
    matchesPath text (name ++ ['/', '*', '*']) = true ↔ ∃ rest, text = name ++ '/' :: rest := by
  have hstars : parse ['/', '*', '*'] = [.char '/', .star, .star] := by
    simp [parse]
  rw [matchesPath_plain_iff h (by decide), hstars]
  constructor
  · rintro ⟨_, rfl, hrest⟩
    obtain ⟨rest, rfl, -⟩ := describes_char_iff.mp hrest
    exact ⟨rest, rfl⟩
  · rintro ⟨rest, rfl⟩
    exact ⟨'/' :: rest, rfl, .char '/' (describes_stars rest)⟩

/-- A name behind `**/` describes the paths that end with it. -/
theorem describesPath_last_iff {name : String} {trail : List String} (hplain : IsPlain name.toList)
    (hname : '/' ∉ name.toList) (hne : trail ≠ []) (h : ∀ part ∈ trail, '/' ∉ part.toList) :
    describesPath ("/".intercalate trail) ("**/" ++ name) = true ↔ trail.getLast? = some name := by
  simp only [describesPath_tail_iff, matchesPath_name_iff hplain, isTail_intercalate_iff hne h]
  constructor
  · rintro ⟨_, ⟨last, hlast, hsuffix, rfl⟩, htext⟩
    obtain ⟨first, more, rfl⟩ := List.exists_cons_of_ne_nil hlast
    by_cases hmore : more = []
    · rw [hmore, String.intercalate_singleton, String.toList_inj] at htext
      obtain ⟨front, rfl⟩ := hsuffix
      simp [hmore, htext]
    · rw [Path.toList_intercalate_cons first hmore] at htext
      exact absurd (htext ▸ by simp) hname
  · intro hlast
    obtain ⟨front, rfl⟩ := List.getLast?_eq_some_iff.mp hlast
    exact ⟨_, ⟨[name], List.cons_ne_nil _ _, List.suffix_append _ _, rfl⟩, by rw [String.intercalate_singleton]⟩

/-- A name is that of a directory on the way if other components follow it. -/
theorem mem_dropLast_iff_suffix {name : String} {trail : List String} :
    name ∈ trail.dropLast ↔ ∃ more, more ≠ [] ∧ name :: more <:+ trail := by
  constructor
  · intro h
    have hne : trail ≠ [] := by
      rintro rfl
      cases h
    obtain ⟨front, back, hsplit⟩ := List.append_of_mem h
    refine ⟨back ++ [trail.getLast hne], by simp, front, ?_⟩
    rw [← List.cons_append, ← List.append_assoc, ← hsplit, List.dropLast_append_getLast]
  · rintro ⟨more, hne, front, rfl⟩
    rw [List.dropLast_append_of_ne_nil (List.cons_ne_nil _ _), List.dropLast_cons_of_ne_nil hne]
    simp

/-- A name between `**/` and `/**` goes by the tails that start with a directory of that name. -/
theorem describesPath_within_iff_tail {path name : String} (hplain : IsPlain name.toList) :
    describesPath path ("**/" ++ name ++ "/**") = true ↔ ∃ rest, IsTail (name.toList ++ '/' :: rest) path.toList := by
  have htext : (name ++ "/**").toList = name.toList ++ ['/', '*', '*'] := String.toList_append
  rw [String.append_assoc, describesPath_tail_iff, htext]
  simp only [matchesPath_directory_iff hplain]
  constructor
  · rintro ⟨_, htail, rest, rfl⟩
    exact ⟨rest, htail⟩
  · rintro ⟨rest, htail⟩
    exact ⟨_, htail, rest, rfl⟩

theorem describesPath_of_mem {name : String} {trail : List String} (hplain : IsPlain name.toList)
    (h : name ∈ trail.dropLast) :
    describesPath ("/".intercalate trail) ("**/" ++ name ++ "/**") = true := by
  obtain ⟨more, hne, hsuffix⟩ := mem_dropLast_iff_suffix.mp h
  have htail := isTail_of_suffix (List.cons_ne_nil name more) hsuffix
  rw [Path.toList_intercalate_cons name hne] at htail
  exact (describesPath_within_iff_tail hplain).mpr ⟨_, htail⟩

/-- A name between `**/` and `/**` describes the paths that lead through a directory of that name. -/
theorem describesPath_within_iff {name : String} {trail : List String} (hplain : IsPlain name.toList)
    (hname : '/' ∉ name.toList) (h : ∀ part ∈ trail, '/' ∉ part.toList) :
    describesPath ("/".intercalate trail) ("**/" ++ name ++ "/**") = true ↔ name ∈ trail.dropLast := by
  refine ⟨fun hmatch => ?_, describesPath_of_mem hplain⟩
  obtain ⟨rest, htail⟩ := (describesPath_within_iff_tail hplain).mp hmatch
  have hne : trail ≠ [] := by
    rintro rfl
    rcases htail with hnil | ⟨front, hnil⟩ <;> simp at hnil
  obtain ⟨last, hlast, hsuffix, htext⟩ := (isTail_intercalate_iff hne h).mp htail
  obtain ⟨first, more, rfl⟩ := List.exists_cons_of_ne_nil hlast
  have hfirst : '/' ∉ first.toList := h first (hsuffix.subset List.mem_cons_self)
  by_cases hmore : more = []
  · rw [hmore, String.intercalate_singleton] at htext
    exact absurd (htext ▸ by simp) hfirst
  · rw [Path.toList_intercalate_cons first hmore] at htext
    have hsame : name.toList = first.toList := by
      rw [← takeWhile_separator hname rest, htext, takeWhile_separator hfirst]
    rw [String.toList_inj.mp hsame]
    exact mem_dropLast_iff_suffix.mpr ⟨more, hmore, hsuffix⟩

end SchemaTypes.Glob
