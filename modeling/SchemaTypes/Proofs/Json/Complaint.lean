import Mathlib.Data.List.Infix
import SchemaTypes.Json.Complaint
import SchemaTypes.Proofs.Json.Reading

/-!
# Complaints about texts that are no JSON

A text is gone through twice: once for its value, and once more for a complaint if it has none. Both go by the same
grammar, so a complaint is made about exactly the texts that are not read, and it names a place in the text.

They part in one point. A number ends where it cannot go on, so the second time `1.x` is a number in front of
a text that nothing can follow, while the reader refuses it at once. Whatever goes on so is no comma and no
bracket, and the complaint comes from what stands around the number.

Results:
* `passText_eq_ok_iff`, `passNumber_follows`, `readAtom_follows`: texts, numbers and words.
* `read?_isSome_iff`: a text is read exactly if it is passed to its end.
* `passDocument_within`, `complaintAbout_cases`: a complaint names a place of the text.
-/

namespace SchemaTypes.Json

variable {rules : Rules} {cs rest : List Char}

/-! ## Texts, numbers and words -/

theorem exists_joinPieces (c : Char) (pieces : List Piece) : ∃ text, joinPieces (some c) pieces = some text := by
  fun_induction joinPieces (some c) pieces with
  | case1 => exact ⟨_, rfl⟩
  | case2 _ _ ih => simp [Option.map_eq_some_iff, ih]
  | case3 _ _ _ _ _ ih => simp [Option.map_eq_some_iff, ih]
  | case4 _ _ _ _ ih => simp [bind, Option.bind_eq_some_iff, ih]
  | case5 _ _ _ ih => simp [bind, Option.bind_eq_some_iff, ih]

theorem passText_eq_ok_iff (opening cs : List Char) :
    passText opening cs = .ok rest ↔ ∃ pieces, readPieces cs = some (pieces, rest) := by
  fun_induction passText opening cs with
  | case1 after => simp [readPieces]
  | case2 a b c d e cs hdigits ih =>
    obtain ⟨n, hn⟩ := Option.isSome_iff_exists.mp hdigits
    rw [ih, readPieces, hn]
    cases readPieces (e :: cs) <;> simp [Prod.ext_iff]
  | case3 a b c d e cs hdigits =>
    simp [readPieces, Option.not_isSome_iff_eq_none.mp hdigits]
  | case4 cs hshort =>
    match cs with
    | [] => simp [readPieces, shortEscape?]
    | [a] => simp [readPieces, shortEscape?]
    | [a, b] => simp [readPieces, shortEscape?]
    | [a, b, c] => simp [readPieces, shortEscape?]
    | [a, b, c, d] => simp [readPieces, bind]
    | a :: b :: c :: d :: e :: cs => exact (hshort a b c d e cs rfl).elim
  | case5 c cs hlong hletter hescape ih =>
    obtain ⟨e, he⟩ := Option.isSome_iff_exists.mp hescape
    rw [ih, readPieces, he]
    · cases readPieces cs <;> simp [Prod.ext_iff]
    · exact fun _ _ _ _ _ h => absurd h hletter
  | case6 c cs hlong hletter hescape =>
    rw [readPieces, Option.not_isSome_iff_eq_none.mp hescape]
    · simp
    · exact fun _ _ _ _ _ h => absurd h hletter
  | case7 c cs hquote _ _ hbackslash hcontrol =>
    rw [readPieces, if_pos (Or.inl hcontrol)]
    · simp
    · exact hquote
    · exact fun _ _ _ _ _ h hcs => hbackslash _ _ h hcs
    · exact hbackslash
  | case8 cs _ _ _ hbackslash =>
    cases cs with
    | nil => simp [readPieces]
    | cons c cs => exact (hbackslash c cs rfl rfl).elim
  | case9 c cs hquote _ _ hbackslash hcontrol hne ih =>
    rw [ih, readPieces, if_neg (not_or.mpr ⟨hcontrol, hne⟩)]
    · cases readPieces cs <;> simp [Prod.ext_iff]
    · exact hquote
    · exact fun _ _ _ _ _ h => absurd h hne
    · exact hbackslash
  | case10 => simp [readPieces]

/-- A text is passed exactly if it is read, where half pairs have something to stand for them. -/
theorem passText_eq_ok_iff_readText {c : Char} (hrules : rules.halfPair = some c) (opening cs : List Char) :
    passText opening cs = .ok rest ↔ ∃ text, readText rules cs = some (text, rest) := by
  rw [passText_eq_ok_iff]
  constructor
  · rintro ⟨pieces, hpieces⟩
    obtain ⟨text, htext⟩ := exists_joinPieces c pieces
    exact ⟨String.ofList text, by simp [readText, hpieces, hrules, htext]⟩
  · rintro ⟨text, htext⟩
    simp only [readText, bind, Option.bind_eq_some_iff] at htext
    obtain ⟨⟨pieces, after⟩, hpieces, text, -, heq⟩ := htext
    obtain ⟨-, rfl⟩ := Prod.mk.inj (Option.some.inj heq)
    exact ⟨pieces, hpieces⟩

/-- What follows a number that is cut off. -/
def GoesOn (cs : List Char) : Prop :=
  cs.head? = some '.' ∨ cs.head? = some 'e' ∨ cs.head? = some 'E'

/-- Whether a piece of a text is passed as it is read. A number may be passed up to where it cannot go on. -/
def Follows {α : Type} (read : Option (α × List Char)) (passed : Passed) : Prop :=
  match read with
  | some (_, rest) => passed = .ok rest
  | none => ∀ rest, passed = .ok rest → GoesOn rest

theorem head_of_readFraction (h : readFraction cs = none) : cs.head? = some '.' := by
  unfold readFraction at h
  split at h
  · rfl
  · simp at h

theorem head_of_readExponent (h : readExponent cs = none) : cs.head? = some 'e' ∨ cs.head? = some 'E' := by
  unfold readExponent at h
  split at h
  · split at h
    · simpa using ‹_›
    · simp at h
  · simp at h

/-- A number goes on as far as it is read, or up to where it cannot go on. -/
theorem afterNumber_eq (cs : List Char) :
    afterNumber cs = match readFraction cs with
      | none => (true, cs)
      | some (fraction, afterFraction) =>
        match readExponent afterFraction with
        | some (some _, rest) => (false, rest)
        | _ => (fraction.isEmpty, afterFraction) := by
  unfold afterNumber
  cases hfraction : readFraction cs with
  | some p => rfl
  | none =>
    have hdot := head_of_readFraction hfraction
    cases cs with
    | nil => simp at hdot
    | cons c cs =>
      obtain rfl : c = '.' := by simpa using hdot
      simp [readExponent]

/-- The sign of a number does not matter to where it ends. -/
theorem passNumber_eq {cs unsigned : List Char}
    (hsign : cs = '-' :: unsigned ∨ cs.head? ≠ some '-' ∧ cs = unsigned) :
    passNumber cs = match readWhole unsigned with
      | none => .error (.found .noValue cs)
      | some (ds, afterWhole) =>
        if (afterNumber afterWhole).1 && 4300 < ds.length then .error (.tooLong ds.length)
        else .ok (afterNumber afterWhole).2 := by
  rcases hsign with rfl | ⟨hhead, rfl⟩
  · rfl
  · unfold passNumber
    split
    · simp at hhead
    · rfl

theorem passNumber_follows (negative : Bool) {cs unsigned : List Char}
    (hsign : cs = '-' :: unsigned ∨ cs.head? ≠ some '-' ∧ cs = unsigned) :
    Follows (readMagnitude negative unsigned) (passNumber cs) := by
  rw [passNumber_eq hsign]
  cases hwhole : readWhole unsigned with
  | none => simp [readMagnitude, hwhole, Follows]
  | some p =>
    obtain ⟨ds, afterWhole⟩ := p
    simp only [afterNumber_eq]
    cases hfraction : readFraction afterWhole with
    | none =>
      simp only [readMagnitude, hwhole, hfraction, Follows, bind, Option.bind]
      intro rest hpassed
      split at hpassed
      · cases hpassed
      · cases hpassed
        exact Or.inl (head_of_readFraction hfraction)
    | some p =>
      obtain ⟨fraction, afterFraction⟩ := p
      cases hexponent : readExponent afterFraction with
      | none =>
        simp only [readMagnitude, hwhole, hfraction, hexponent, Follows, bind, Option.bind]
        intro rest hpassed
        split at hpassed
        · cases hpassed
        · cases hpassed
          exact Or.inr (head_of_readExponent hexponent)
      | some p =>
        obtain ⟨exponent, rest⟩ := p
        cases exponent with
        | some n => simp [readMagnitude, hwhole, hfraction, hexponent, Follows]
        | none =>
          obtain rfl := readExponent_none hexponent
          cases fraction with
          | nil =>
            by_cases hlong : 4300 < ds.length <;>
              simp [readMagnitude, hwhole, hfraction, hexponent, Follows, hlong]
          | cons d ds => simp [readMagnitude, hwhole, hfraction, hexponent, Follows]

/-- Where no digit stands, no number starts. -/
theorem readWhole_of_no_digit {c : Char} (h : c.isDigit = false) (cs : List Char) : readWhole (c :: cs) = none := by
  unfold readWhole
  split
  · simp_all
  · simp [readDigits, h]

theorem passNumber_of_no_digit {c : Char} (hsign : c ≠ '-') (h : c.isDigit = false) (cs : List Char) :
    passNumber (c :: cs) = .error (.found .noValue (c :: cs)) := by
  rw [passNumber_eq (.inr ⟨by simpa using hsign, rfl⟩), readWhole_of_no_digit h]

theorem passNumber_sign_of_no_digit {c : Char} (h : c.isDigit = false) (cs : List Char) :
    passNumber ('-' :: c :: cs) = .error (.found .noValue ('-' :: c :: cs)) := by
  rw [passNumber_eq (.inl rfl), readWhole_of_no_digit h]

theorem passAtom_eq_passNumber
    (h : ∀ word ∈ ["null", "true", "false", "NaN", "Infinity", "-Infinity"], word.toList.isPrefixOf? cs = none) :
    passAtom cs = passNumber cs := by
  rw [passAtom, List.findSome?_eq_none_iff.mpr h]

theorem readAtom_follows (cs : List Char) : Follows (readAtom cs) (passAtom cs) := by
  unfold readAtom
  split
  iterate 5
    · rename_i cs
      simp only [readWord, passAtom, String.reduceToList, List.findSome?_cons, List.findSome?_nil, List.isPrefixOf?,
        BEq.rfl, Char.reduceBEq, Bool.false_eq_true, ↓reduceIte]
      cases List.isPrefixOf? _ cs <;> simp [Follows, passNumber_of_no_digit]
  · rename_i cs
    simp only [readWord, passAtom, String.reduceToList, List.findSome?_cons, List.findSome?_nil, List.isPrefixOf?,
      BEq.rfl, Char.reduceBEq, Bool.false_eq_true, ↓reduceIte]
    cases List.isPrefixOf? _ cs <;> simp [Follows, passNumber_sign_of_no_digit]
  · rename_i cs hinfinity
    rw [passAtom_eq_passNumber]
    · exact passNumber_follows true (.inl rfl)
    · cases cs <;> simp_all [List.isPrefixOf?, @eq_comm Char]
  · rename_i hnull htrue hfalse hnan hinfinity hnegative hsign
    rw [passAtom_eq_passNumber]
    · refine passNumber_follows false (.inr ⟨fun hhead => ?_, rfl⟩)
      obtain ⟨rest, hrest⟩ := List.head?_eq_some_iff.mp hhead
      exact hsign rest hrest
    · cases cs <;> simp_all [List.isPrefixOf?, @eq_comm Char]

/-! ## Values -/

theorem Follows.of_iff {α : Type} {read : Option (α × List Char)} {passed : Passed}
    (h : ∀ rest, passed = .ok rest ↔ ∃ v, read = some (v, rest)) : Follows read passed := by
  cases read with
  | none => exact fun rest hpassed => by simp [hpassed] at h
  | some p => exact (h p.2).mpr ⟨p.1, rfl⟩

/-- What goes on behind a number is no gap and separates or closes nothing. -/
theorem GoesOn.skipBlanks (h : GoesOn cs) :
    ∃ c rest, Json.skipBlanks cs = c :: rest ∧ c ≠ ',' ∧ c ≠ ']' ∧ c ≠ '\x7d' := by
  cases cs with
  | nil => simp [GoesOn] at h
  | cons c cs =>
    have hc : c = '.' ∨ c = 'e' ∨ c = 'E' := by simpa [GoesOn] using h
    refine ⟨c, cs, ?_, ?_⟩ <;> rcases hc with rfl | rfl | rfl
    iterate 3 rfl
    all_goals decide

/-- Whether a text is passed as it is read with the same fuel. -/
structure PassesAs (rules : Rules) (fuel : Nat) : Prop where
  value : ∀ depth cs, Follows (readValue rules fuel depth cs) (passValue fuel cs)
  items : ∀ depth cs rest, passItems fuel cs = .ok rest ↔
    ∃ items, readItems rules fuel depth cs = some (items, rest)
  entries : ∀ depth before cs rest, passEntries fuel cs = .ok rest ↔
    ∃ entries, readEntries rules fuel depth before cs = some (entries, rest)

section Pass

variable {fuel : Nat} {c : Char} (hhalf : rules.halfPair = some c) (hdepth : rules.depth = none)
  (ih : PassesAs rules fuel)
include hhalf hdepth ih

theorem passValue_follows (depth : Nat) (cs : List Char) :
    Follows (readValue rules (fuel + 1) depth cs) (passValue (fuel + 1) cs) := by
  unfold readValue
  split
  · contradiction
  · rename_i cs
    refine .of_iff fun rest => ?_
    rw [passValue, passText_eq_ok_iff_readText hhalf]
    simp [Option.map_eq_some_iff]
  · rename_i cs heq
    obtain rfl := Nat.succ.inj heq
    refine .of_iff fun rest => ?_
    rw [passValue]
    generalize skipBlanks cs = start
    split
    · simp
    · simpa [hdepth] using ih.items _ _ rest
  · rename_i cs heq
    obtain rfl := Nat.succ.inj heq
    refine .of_iff fun rest => ?_
    rw [passValue]
    generalize skipBlanks cs = start
    split
    · simp
    · simpa [hdepth] using ih.entries _ _ _ rest
  · rw [passValue]
    · exact readAtom_follows _
    all_goals assumption

omit hhalf hdepth in
theorem passItems_eq_ok_iff (depth : Nat) (cs rest : List Char) : passItems (fuel + 1) cs = .ok rest ↔
    ∃ items, readItems rules (fuel + 1) depth cs = some (items, rest) := by
  have hvalue := ih.value depth cs
  rw [readItems, passItems]
  cases hread : readValue rules fuel depth cs with
  | none =>
    rw [hread] at hvalue
    cases hpass : passValue fuel cs with
    | error _ => simp [bind, Except.bind]
    | ok behind =>
      obtain ⟨c, rest, hskip, hcomma, hbracket, -⟩ := (hvalue behind hpass).skipBlanks
      simp [bind, Except.bind, hskip, hcomma, hbracket]
  | some p =>
    obtain ⟨item, behind⟩ := p
    rw [hread] at hvalue
    have hpass : passValue fuel cs = .ok behind := hvalue
    simp only [hpass, bind, Except.bind]
    generalize skipBlanks behind = following
    split
    · simp [ih.items depth]
    · simp
    · simp

omit hdepth in
theorem passEntries_eq_ok_iff (depth : Nat) (before : List (String × Json)) (cs rest : List Char) :
    passEntries (fuel + 1) cs = .ok rest ↔
      ∃ entries, readEntries rules (fuel + 1) depth before cs = some (entries, rest) := by
  by_cases hquote : ∃ more, cs = '"' :: more
  · obtain ⟨cs, rfl⟩ := hquote
    rw [readEntries, passEntries]
    cases hkey : readText rules cs with
    | none =>
      cases hpass : passText ('"' :: cs) cs with
      | error _ => simp [bind, Except.bind]
      | ok rest =>
        obtain ⟨key, hread⟩ := (passText_eq_ok_iff_readText hhalf _ _).mp hpass
        rw [hkey] at hread
        cases hread
    | some p =>
      obtain ⟨key, afterKey⟩ := p
      have hpass : passText ('"' :: cs) cs = .ok afterKey :=
        (passText_eq_ok_iff_readText hhalf _ _).mpr ⟨key, hkey⟩
      by_cases hcolon : ∃ valueText, skipBlanks afterKey = ':' :: valueText
      · obtain ⟨valueText, hskip⟩ := hcolon
        have hvalue := ih.value depth (skipBlanks valueText)
        simp only [hpass, hskip, bind, Except.bind]
        cases hread : readValue rules fuel depth (skipBlanks valueText) with
        | none =>
          rw [hread] at hvalue
          cases hpass : passValue fuel (skipBlanks valueText) with
          | error _ => simp
          | ok behind =>
            obtain ⟨c, rest, hskip, hcomma, -, hbrace⟩ := (hvalue behind hpass).skipBlanks
            simp [hskip, hcomma, hbrace]
        | some p =>
          obtain ⟨value, behind⟩ := p
          rw [hread] at hvalue
          have hpass : passValue fuel (skipBlanks valueText) = .ok behind := hvalue
          simp only [hpass]
          generalize skipBlanks behind = following
          split
          · simp [ih.entries depth (insert key value before)]
          · simp
          · simp
      · simp only [hpass, bind, Except.bind]
        split
        · exact (hcolon ⟨_, ‹_›⟩).elim
        · simp
  · have hne : ∀ more, cs = '"' :: more → False := fun more h => hquote ⟨more, h⟩
    rw [readEntries, passEntries]
    · simp
    · exact hne
    · exact hne

end Pass

theorem passesAs {c : Char} (hhalf : rules.halfPair = some c) (hdepth : rules.depth = none) (fuel : Nat) :
    PassesAs rules fuel := by
  induction fuel with
  | zero => constructor <;> simp [readValue, readItems, readEntries, passValue, passItems, passEntries, Follows]
  | succ fuel ih =>
    exact ⟨passValue_follows hhalf hdepth ih, passItems_eq_ok_iff ih, passEntries_eq_ok_iff hhalf ih⟩

theorem readValue_mark (fuel depth : Nat) (cs : List Char) :
    readValue rules (fuel + 1) depth ('\uFEFF' :: cs) = none := by
  rw [readValue] <;> simp [readAtom, readMagnitude, readWhole_of_no_digit]

/-- A text is read exactly if it is passed to its end. -/
theorem read?_isSome_iff (text : String) :
    (read? settingsRules text).isSome = true ↔ passDocument text.toList = .ok [] := by
  by_cases hmark : text.toList.head? = some '\uFEFF'
  · obtain ⟨rest, htext⟩ := List.head?_eq_some_iff.mp hmark
    have hskip : skipBlanks ('\uFEFF' :: rest) = '\uFEFF' :: rest := rfl
    have hread : read? settingsRules text = none := by
      simp [read?, htext, hskip, readValue_mark]
    have hpass : passDocument text.toList = .error (.found .mark text.toList) := by
      rw [passDocument, if_pos hmark]
      rfl
    simp [hread, hpass]
  · have hpass : passDocument text.toList =
        (passValue (2 * (skipBlanks text.toList).length + 1) (skipBlanks text.toList)).map skipBlanks := by
      rw [passDocument, if_neg hmark]
      rfl
    rw [read?, hpass]
    generalize skipBlanks text.toList = cs
    have hfuel : readValue settingsRules (cs.length + 1) 0 cs = readValue settingsRules (2 * cs.length + 1) 0 cs :=
      readValue_eq_of_fuel (by omega) (by omega)
    have hvalue := (@passesAs settingsRules '\uFFFD' rfl rfl (2 * cs.length + 1)).value 0 cs
    simp only [hfuel]
    cases hread : readValue settingsRules (2 * cs.length + 1) 0 cs with
    | none =>
      rw [hread] at hvalue
      cases hpassed : passValue (2 * cs.length + 1) cs with
      | error _ => simp [Except.map]
      | ok rest =>
        obtain ⟨c, rest, hskip, -⟩ := (hvalue rest hpassed).skipBlanks
        simp [Except.map, hskip]
    | some p =>
      obtain ⟨v, rest⟩ := p
      rw [hread] at hvalue
      have hpassed : passValue (2 * cs.length + 1) cs = .ok rest := hvalue
      cases hrest : skipBlanks rest <;> simp [hpassed, Except.map, hrest]

/-! ## Places -/

/-- Whether what is left stands at the end of the text, behind a piece or at a fault. -/
def Within (text : List Char) : Passed → Prop
  | .ok rest => rest <:+ text
  | .error (.found _ rest) => rest <:+ text
  | .error (.tooLong _) => True

theorem Within.mono {text more : List Char} {passed : Passed} (h : Within text passed) (hmore : text <:+ more) :
    Within more passed := by
  cases passed with
  | ok rest => exact h.trans hmore
  | error complaint =>
    cases complaint with
    | found wrong rest => exact h.trans hmore
    | tooLong digits => trivial

/-- What is done behind a piece stays in the text if it does so behind every end of the text. -/
theorem Within.bind {text : List Char} {passed : Passed} (h : Within text passed) {f : List Char → Passed}
    (hf : ∀ rest, rest <:+ text → Within text (f rest)) : Within text (passed >>= f) := by
  cases passed with
  | ok rest => exact hf rest h
  | error complaint => cases complaint <;> exact h

theorem passText_within {opening cs : List Char} (h : cs <:+ opening) : Within opening (passText opening cs) := by
  fun_induction passText opening cs with
  | case1 rest => exact (List.suffix_cons _ _).trans h
  | case2 a b c d e cs _ ih => exact ih (.trans ⟨['\\', 'u', a, b, c, d], rfl⟩ h)
  | case3 a b c d e cs _ => exact (List.suffix_cons _ _).trans h
  | case4 cs _ => exact (List.suffix_cons _ _).trans h
  | case5 c cs _ _ _ ih => exact ih (.trans ⟨['\\', c], rfl⟩ h)
  | case6 => exact h
  | case7 => exact h
  | case8 => exact List.suffix_refl _
  | case9 _ _ _ _ _ _ _ _ ih => exact ih ((List.suffix_cons _ _).trans h)
  | case10 => exact List.suffix_refl _

theorem afterNumber_suffix (cs : List Char) : (afterNumber cs).2 <:+ cs := by
  rw [afterNumber_eq]
  split
  · exact List.suffix_refl _
  · rename_i fraction afterFraction hfraction
    have hsuffix := readFraction_suffix hfraction
    split
    · rename_i n rest hexponent
      exact (readExponent_suffix hexponent).trans hsuffix
    · exact hsuffix

theorem passNumber_within (cs : List Char) : Within cs (passNumber cs) := by
  obtain ⟨unsigned, hsign⟩ : ∃ unsigned, cs = '-' :: unsigned ∨ cs.head? ≠ some '-' ∧ cs = unsigned := by
    by_cases hhead : cs.head? = some '-'
    · obtain ⟨rest, rfl⟩ := List.head?_eq_some_iff.mp hhead
      exact ⟨rest, .inl rfl⟩
    · exact ⟨cs, .inr ⟨hhead, rfl⟩⟩
  have hunsigned : unsigned <:+ cs := by
    rcases hsign with rfl | ⟨-, rfl⟩
    · exact List.suffix_cons _ _
    · exact List.suffix_refl _
  rw [passNumber_eq hsign]
  split
  · exact List.suffix_refl _
  · rename_i ds afterWhole hwhole
    split
    · trivial
    · exact (afterNumber_suffix afterWhole).trans ((readWhole_suffix hwhole).trans hunsigned)

theorem passAtom_within (cs : List Char) : Within cs (passAtom cs) := by
  unfold passAtom
  split
  · rename_i rest hword
    obtain ⟨word, -, hprefix⟩ := List.exists_of_findSome?_eq_some hword
    exact ⟨word.toList, List.append_eq_of_isPrefixOf?_eq_some hprefix⟩
  · exact passNumber_within cs

/-- Whether what is passed with some fuel stays in the text. -/
structure StaysWithin (fuel : Nat) : Prop where
  value : ∀ cs, Within cs (passValue fuel cs)
  items : ∀ cs, Within cs (passItems fuel cs)
  entries : ∀ cs, Within cs (passEntries fuel cs)

section Stay

variable {fuel : Nat} (ih : StaysWithin fuel)
include ih

theorem passValue_within (cs : List Char) : Within cs (passValue (fuel + 1) cs) := by
  unfold passValue
  split
  · contradiction
  · exact passText_within (List.suffix_cons _ _)
  · rename_i cs heq
    obtain rfl := Nat.succ.inj heq
    have hstart := (skipBlanks_suffix cs).trans (List.suffix_cons '[' cs)
    split
    · rename_i after hskip
      rw [hskip] at hstart
      exact (List.suffix_cons _ _).trans hstart
    · exact (ih.items _).mono hstart
  · rename_i cs heq
    obtain rfl := Nat.succ.inj heq
    have hstart := (skipBlanks_suffix cs).trans (List.suffix_cons '\x7b' cs)
    split
    · rename_i after hskip
      rw [hskip] at hstart
      exact (List.suffix_cons _ _).trans hstart
    · exact (ih.entries _).mono hstart
  · exact passAtom_within _

theorem passItems_within (cs : List Char) : Within cs (passItems (fuel + 1) cs) := by
  rw [passItems]
  refine (ih.value cs).bind fun behind hbehind => ?_
  have hplace := (skipBlanks_suffix behind).trans hbehind
  split
  · rename_i more hskip
    rw [hskip] at hplace
    exact (ih.items _).mono ((skipBlanks_suffix more).trans ((List.suffix_cons _ _).trans hplace))
  · rename_i after hskip
    rw [hskip] at hplace
    exact (List.suffix_cons _ _).trans hplace
  · exact hplace

theorem passEntries_within (cs : List Char) : Within cs (passEntries (fuel + 1) cs) := by
  unfold passEntries
  split
  · contradiction
  · rename_i cs heq
    obtain rfl := Nat.succ.inj heq
    refine (passText_within (List.suffix_cons _ _)).bind fun afterKey hkey => ?_
    have hcolon := (skipBlanks_suffix afterKey).trans hkey
    split
    · rename_i valueText hskip
      rw [hskip] at hcolon
      have hvalue := (skipBlanks_suffix valueText).trans ((List.suffix_cons _ _).trans hcolon)
      refine ((ih.value _).mono hvalue).bind fun behind hbehind => ?_
      have hplace := (skipBlanks_suffix behind).trans hbehind
      split
      · rename_i more hskip
        rw [hskip] at hplace
        exact (ih.entries _).mono ((skipBlanks_suffix more).trans ((List.suffix_cons _ _).trans hplace))
      · rename_i after hskip
        rw [hskip] at hplace
        exact (List.suffix_cons _ _).trans hplace
      · exact hplace
    · exact hcolon
  · exact List.suffix_refl _

end Stay

theorem staysWithin (fuel : Nat) : StaysWithin fuel := by
  induction fuel with
  | zero => exact ⟨List.suffix_refl, List.suffix_refl, List.suffix_refl⟩
  | succ fuel ih => exact ⟨passValue_within ih, passItems_within ih, passEntries_within ih⟩

/-- A complaint names a place of the text, and so does what is left behind a value. -/
theorem passDocument_within (text : List Char) : Within text (passDocument text) := by
  unfold passDocument
  split
  · exact List.suffix_refl _
  · have hstart := skipBlanks_suffix text
    refine (((staysWithin _).value _).mono hstart).bind fun rest hrest => ?_
    exact (skipBlanks_suffix rest).trans hrest

/-- A place is told by the characters before it. -/
theorem placeOf_append (front rest : List Char) :
    placeOf (front ++ rest) rest = "line " ++ toString (front.count '\n' + 1) ++ " column " ++
      toString ((front.reverse.takeWhile (· != '\n')).length + 1) ++
        " (char " ++ toString front.length ++ ")" := by
  have hfront : (front ++ rest).take ((front ++ rest).length - rest.length) = front := by simp
  rw [placeOf, hfront]

/-- What is said about a text that is no JSON names a place in it, unless it is about the digits of a number. -/
theorem complaintAbout_cases (text : String) :
    (∃ (wrong : Wrong) (front rest : List Char), text.toList = front ++ rest ∧
      complaintAbout text = (Complaint.found wrong rest).message text.toList) ∨
      ∃ digits, complaintAbout text = (Complaint.tooLong digits).message text.toList := by
  have hwithin := passDocument_within text.toList
  unfold complaintAbout
  generalize text.toList = cs at hwithin
  cases hpassed : passDocument cs with
  | ok rest =>
    rw [hpassed] at hwithin
    obtain ⟨front, htext⟩ := hwithin
    exact .inl ⟨.extra, front, rest, htext.symm, by simp only [hpassed]⟩
  | error complaint =>
    rw [hpassed] at hwithin
    cases complaint with
    | found wrong rest =>
      obtain ⟨front, htext⟩ := hwithin
      exact .inl ⟨wrong, front, rest, htext.symm, by simp only [hpassed]⟩
    | tooLong digits => exact .inr ⟨digits, by simp only [hpassed]⟩

end SchemaTypes.Json
