import Mathlib.Data.List.Infix
import SchemaTypes.Json.Reader

/-!
# What reading takes away

A reader of JSON goes through a text from its front. What it leaves is an end of the text, and a value takes
at least one character away. So arrays and objects are not nested deeper than a text is long, and a reader
with as much fuel as there are characters never runs out of it.

Results:
* `readPieces_length`, `readText_length`, `readAtom_length`: a piece takes characters away.
* `readDigits_suffix` to `readExponent_suffix`: what parts of a number leave.
* `needsLess`, `readValue_eq_of_fuel`: a value is read with any fuel that is as much as the characters.
-/

namespace SchemaTypes.Json

variable {rules : Rules} {cs rest : List Char} {v : Json}

/-! ## Characters that are read -/

theorem skipBlanks_suffix (cs : List Char) : skipBlanks cs <:+ cs :=
  List.dropWhile_suffix isGap

theorem skipBlanks_length_le (cs : List Char) : (skipBlanks cs).length ≤ cs.length :=
  (skipBlanks_suffix cs).length_le

theorem readPieces_length {pieces : List Piece} (h : readPieces cs = some (pieces, rest)) :
    rest.length < cs.length := by
  fun_induction readPieces cs generalizing pieces rest with
  | case1 => simp_all
  | case2 a b c d cs ih =>
    simp only [bind, Option.bind_eq_some_iff] at h
    obtain ⟨n, -, ⟨more, after⟩, hread, h⟩ := h
    obtain ⟨-, rfl⟩ := Prod.mk.inj (Option.some.inj h)
    have hmore := ih hread
    simp only [List.length_cons]
    omega
  | case3 c cs _ ih =>
    simp only [bind, Option.bind_eq_some_iff] at h
    obtain ⟨e, -, ⟨more, after⟩, hread, h⟩ := h
    obtain ⟨-, rfl⟩ := Prod.mk.inj (Option.some.inj h)
    have hmore := ih hread
    simp only [List.length_cons]
    omega
  | case4 => simp at h
  | case5 c cs _ _ _ _ ih =>
    simp only [bind, Option.bind_eq_some_iff] at h
    obtain ⟨⟨more, after⟩, hread, h⟩ := h
    obtain ⟨-, rfl⟩ := Prod.mk.inj (Option.some.inj h)
    have hmore := ih hread
    simp only [List.length_cons]
    omega
  | case6 => simp at h

theorem readText_length {text : String} (h : readText rules cs = some (text, rest)) : rest.length < cs.length := by
  simp only [readText, bind, Option.bind_eq_some_iff] at h
  obtain ⟨⟨pieces, after⟩, hread, text, -, h⟩ := h
  obtain ⟨-, rfl⟩ := Prod.mk.inj (Option.some.inj h)
  exact readPieces_length hread

theorem readDigits_suffix {ds : List Char} (h : readDigits cs = some (ds, rest)) : rest <:+ cs := by
  unfold readDigits at h
  split at h
  · simp at h
  · obtain ⟨-, rfl⟩ := Prod.mk.inj (Option.some.inj h)
    exact List.dropWhile_suffix _

theorem readWhole_suffix {ds : List Char} (h : readWhole cs = some (ds, rest)) : rest <:+ cs := by
  unfold readWhole at h
  split at h
  · obtain ⟨-, rfl⟩ := Prod.mk.inj (Option.some.inj h)
    exact List.suffix_cons _ _
  · exact readDigits_suffix h

theorem readFraction_suffix {ds : List Char} (h : readFraction cs = some (ds, rest)) : rest <:+ cs := by
  unfold readFraction at h
  split at h
  · exact (readDigits_suffix h).trans (List.suffix_cons _ _)
  · obtain ⟨-, rfl⟩ := Prod.mk.inj (Option.some.inj h)
    exact List.suffix_refl _

theorem readExponent_suffix {n : Option Int} (h : readExponent cs = some (n, rest)) : rest <:+ cs := by
  unfold readExponent at h
  split at h
  · split at h
    · obtain ⟨⟨ds, after⟩, hread, heq⟩ := Option.map_eq_some_iff.mp h
      obtain ⟨-, rfl⟩ := Prod.mk.inj heq
      have hdigits := readDigits_suffix hread
      split at hdigits
      · exact hdigits.trans ⟨[_, '-'], rfl⟩
      · exact hdigits.trans ⟨[_, '+'], rfl⟩
      · exact hdigits.trans (List.suffix_cons _ _)
    · obtain ⟨-, rfl⟩ := Prod.mk.inj (Option.some.inj h)
      exact List.suffix_refl _
  · obtain ⟨-, rfl⟩ := Prod.mk.inj (Option.some.inj h)
    exact List.suffix_refl _

theorem readDigits_length {ds : List Char} (h : readDigits cs = some (ds, rest)) : rest.length < cs.length := by
  have hsplit : (cs.takeWhile Char.isDigit).length + (cs.dropWhile Char.isDigit).length = cs.length := by
    rw [← List.length_append, List.takeWhile_append_dropWhile]
  unfold readDigits at h
  split at h
  · simp at h
  · rename_i hds
    obtain ⟨rfl, rfl⟩ := Prod.mk.inj (Option.some.inj h)
    have hpos := List.length_pos_iff.mpr hds
    omega

theorem readWhole_length {ds : List Char} (h : readWhole cs = some (ds, rest)) : rest.length < cs.length := by
  unfold readWhole at h
  split at h
  · simp_all
  · exact readDigits_length h

theorem readExponent_none (h : readExponent cs = some (none, rest)) : rest = cs := by
  unfold readExponent at h
  split at h
  · split at h
    · obtain ⟨_, -, heq⟩ := Option.map_eq_some_iff.mp h
      exact absurd (Prod.mk.inj heq).1 (by simp)
    · simp_all
  · simp_all

theorem readMagnitude_length {negative : Bool} (h : readMagnitude negative cs = some (v, rest)) :
    rest.length < cs.length := by
  simp only [readMagnitude, bind, Option.bind_eq_some_iff] at h
  obtain ⟨⟨whole, afterWhole⟩, hwhole, ⟨fraction, afterFraction⟩, hfraction, ⟨exponent, left⟩, hexponent, h⟩ := h
  have h1 := readWhole_length hwhole
  have h2 : afterFraction.length ≤ afterWhole.length := (readFraction_suffix hfraction).length_le
  have h3 : left.length ≤ afterFraction.length := (readExponent_suffix hexponent).length_le
  have hleft : left = rest := by
    dsimp only at h
    split at h
    · split at h
      · simp at h
      · exact (Prod.mk.inj (Option.some.inj h)).2
    · exact (Prod.mk.inj (Option.some.inj h)).2
  subst hleft
  omega

theorem readWord_length {word : String} {value : Json} (hne : word.toList ≠ [])
    (h : readWord word value cs = some (v, rest)) : rest.length < cs.length := by
  obtain ⟨after, hprefix, heq⟩ := Option.map_eq_some_iff.mp h
  obtain ⟨-, rfl⟩ := Prod.mk.inj heq
  rw [← List.append_eq_of_isPrefixOf?_eq_some hprefix, List.length_append]
  have hpos := List.length_pos_iff.mpr hne
  omega

theorem readAtom_length (h : readAtom cs = some (v, rest)) : rest.length < cs.length := by
  unfold readAtom at h
  split at h
  iterate 6 exact readWord_length (by decide) h
  · exact Nat.lt_succ_of_lt (readMagnitude_length h)
  · exact readMagnitude_length h

/-! ## Fuel -/

/-- Whether what is read with some fuel takes characters away, and is read the same with any fuel that is as
much as these. So the induction on the fuel carries both, and a loop gets its fuel from what came before it. -/
structure NeedsLess (rules : Rules) (fuel : Nat) : Prop where
  value : ∀ {depth cs v rest}, readValue rules fuel depth cs = some (v, rest) →
    rest.length < cs.length ∧ ∀ more, cs.length ≤ more + rest.length →
      readValue rules more depth cs = some (v, rest)
  items : ∀ {depth cs items rest}, readItems rules fuel depth cs = some (items, rest) →
    rest.length < cs.length ∧ ∀ more, cs.length ≤ more + rest.length →
      readItems rules more depth cs = some (items, rest)
  entries : ∀ {depth before cs entries rest}, readEntries rules fuel depth before cs = some (entries, rest) →
    rest.length < cs.length ∧ ∀ more, cs.length ≤ more + rest.length →
      readEntries rules more depth before cs = some (entries, rest)

/-- As something is taken away, there is fuel for at least one step. -/
theorem forall_fuel {P : Nat → Prop} (hlength : rest.length < cs.length)
    (h : ∀ more, cs.length ≤ more + 1 + rest.length → P (more + 1)) :
    rest.length < cs.length ∧ ∀ more, cs.length ≤ more + rest.length → P more := by
  refine ⟨hlength, fun more hmore => ?_⟩
  obtain ⟨more, rfl⟩ := Nat.exists_eq_add_one_of_ne_zero (show more ≠ 0 by omega)
  exact h more hmore

section Step

variable {fuel depth : Nat} (ih : NeedsLess rules fuel)
include ih

theorem readValue_needsLess (h : readValue rules (fuel + 1) depth cs = some (v, rest)) :
    rest.length < cs.length ∧
      ∀ more, cs.length ≤ more + rest.length → readValue rules more depth cs = some (v, rest) := by
  unfold readValue at h
  split at h
  · simp at h
  · obtain ⟨⟨text, after⟩, hread, heq⟩ := Option.map_eq_some_iff.mp h
    obtain ⟨rfl, rfl⟩ := Prod.mk.inj heq
    have hlength := Nat.lt_succ_of_lt (readText_length hread)
    refine forall_fuel hlength fun more hmore => ?_
    simp [readValue, hread]
  · rename_i cs heq
    obtain rfl := Nat.succ.inj heq
    have hstart := skipBlanks_length_le cs
    split at h
    · rename_i after hskip
      obtain ⟨rfl, rfl⟩ := Prod.mk.inj (Option.some.inj h)
      rw [hskip] at hstart
      have hlength : after.length < ('[' :: cs).length := Nat.lt_succ_of_lt hstart
      refine forall_fuel hlength fun more hmore => ?_
      simp [readValue, hskip]
    · split at h
      · simp at h
      · rename_i hdepth
        obtain ⟨⟨items, after⟩, hread, heq⟩ := Option.map_eq_some_iff.mp h
        obtain ⟨rfl, rfl⟩ := Prod.mk.inj heq
        obtain ⟨hitems, hfuel⟩ := ih.items hread
        have hlength : after.length < ('[' :: cs).length := Nat.lt_succ_of_lt (Nat.lt_of_lt_of_le hitems hstart)
        refine forall_fuel hlength fun more hmore => ?_
        rw [List.length_cons] at hmore
        simp [readValue, hdepth, hfuel more (by omega)]
  · rename_i cs heq
    obtain rfl := Nat.succ.inj heq
    have hstart := skipBlanks_length_le cs
    split at h
    · rename_i after hskip
      obtain ⟨rfl, rfl⟩ := Prod.mk.inj (Option.some.inj h)
      rw [hskip] at hstart
      have hlength : after.length < ('\x7b' :: cs).length := Nat.lt_succ_of_lt hstart
      refine forall_fuel hlength fun more hmore => ?_
      simp [readValue, hskip]
    · split at h
      · simp at h
      · rename_i hdepth
        obtain ⟨⟨entries, after⟩, hread, heq⟩ := Option.map_eq_some_iff.mp h
        obtain ⟨rfl, rfl⟩ := Prod.mk.inj heq
        obtain ⟨hentries, hfuel⟩ := ih.entries hread
        have hlength : after.length < ('\x7b' :: cs).length :=
          Nat.lt_succ_of_lt (Nat.lt_of_lt_of_le hentries hstart)
        refine forall_fuel hlength fun more hmore => ?_
        rw [List.length_cons] at hmore
        simp [readValue, hdepth, hfuel more (by omega)]
  · have hlength := readAtom_length h
    refine forall_fuel hlength fun more hmore => ?_
    rw [readValue]
    · exact h
    all_goals assumption

theorem readItems_needsLess {items : List Json}
    (h : readItems rules (fuel + 1) depth cs = some (items, rest)) : rest.length < cs.length ∧
      ∀ more, cs.length ≤ more + rest.length → readItems rules more depth cs = some (items, rest) := by
  unfold readItems at h
  split at h
  · simp at h
  · rename_i item behind hread
    obtain ⟨hitem, hfuel⟩ := ih.value hread
    have hbehind := skipBlanks_length_le behind
    split at h
    · rename_i following hskip
      obtain ⟨⟨later, after⟩, hlater, heq⟩ := Option.map_eq_some_iff.mp h
      obtain ⟨rfl, rfl⟩ := Prod.mk.inj heq
      obtain ⟨hitems, hlaterFuel⟩ := ih.items hlater
      have hstart := skipBlanks_length_le following
      rw [hskip, List.length_cons] at hbehind
      have hlength : after.length < cs.length := by omega
      refine forall_fuel hlength fun more hmore => ?_
      simp [readItems, hfuel more (by omega), hskip, hlaterFuel more (by omega)]
    · rename_i after hskip
      obtain ⟨rfl, rfl⟩ := Prod.mk.inj (Option.some.inj h)
      rw [hskip, List.length_cons] at hbehind
      have hlength : after.length < cs.length := by omega
      refine forall_fuel hlength fun more hmore => ?_
      simp [readItems, hfuel more (by omega), hskip]
    · simp at h

theorem readEntries_needsLess {before entries : List (String × Json)}
    (h : readEntries rules (fuel + 1) depth before cs = some (entries, rest)) : rest.length < cs.length ∧
      ∀ more, cs.length ≤ more + rest.length → readEntries rules more depth before cs = some (entries, rest) := by
  unfold readEntries at h
  split at h
  · simp at h
  · rename_i cs heq
    obtain rfl := Nat.succ.inj heq
    split at h
    · simp at h
    · rename_i key afterKey hkey
      have hkeyLength := readText_length hkey
      have hcolon := skipBlanks_length_le afterKey
      split at h
      · rename_i valueText hskip
        have hvalueStart := skipBlanks_length_le valueText
        rw [hskip, List.length_cons] at hcolon
        split at h
        · simp at h
        · rename_i value behind hread
          obtain ⟨hvalue, hfuel⟩ := ih.value hread
          have hbehind := skipBlanks_length_le behind
          dsimp only at h
          split at h
          · rename_i following hcomma
            obtain ⟨hentries, hlaterFuel⟩ := ih.entries h
            have hstart := skipBlanks_length_le following
            rw [hcomma, List.length_cons] at hbehind
            have hlength : rest.length < ('"' :: cs).length := by rw [List.length_cons]; omega
            refine forall_fuel hlength fun more hmore => ?_
            rw [List.length_cons] at hmore
            simp [readEntries, hkey, hskip, hfuel more (by omega), hcomma, hlaterFuel more (by omega)]
          · rename_i after hbrace
            obtain ⟨rfl, rfl⟩ := Prod.mk.inj (Option.some.inj h)
            rw [hbrace, List.length_cons] at hbehind
            have hlength : after.length < ('"' :: cs).length := by rw [List.length_cons]; omega
            refine forall_fuel hlength fun more hmore => ?_
            rw [List.length_cons] at hmore
            simp [readEntries, hkey, hskip, hfuel more (by omega), hbrace]
          · simp at h
      · simp at h
  · simp at h

end Step

theorem needsLess (rules : Rules) (fuel : Nat) : NeedsLess rules fuel := by
  induction fuel with
  | zero => constructor <;> simp [readValue, readItems, readEntries]
  | succ fuel ih => exact ⟨readValue_needsLess ih, readItems_needsLess ih, readEntries_needsLess ih⟩

/-- Any fuel that is as much as the characters is enough. -/
theorem readValue_eq_of_fuel {depth fuel more : Nat} (hfuel : cs.length ≤ fuel) (hmore : cs.length ≤ more) :
    readValue rules fuel depth cs = readValue rules more depth cs := by
  refine Option.ext fun p => ⟨fun h => ?_, fun h => ?_⟩
  · exact ((needsLess rules fuel).value h).2 more (by omega)
  · exact ((needsLess rules more).value h).2 fuel (by omega)

end SchemaTypes.Json
