import SchemaTypes.Text.CharRange

/-!
# Lower case

How a text is written in small letters. A capital has one small letter, with two exceptions. The small letter
of the capital I with a dot above is followed by the dot. The capital sigma has a second small letter for the
end of a word; where words end is left to a rule about what stands on either side.

Results: `lowerFrom_of_ascii`, only ASCII letters change in an ASCII text; `forall_lt_of_lowerFrom`, a text that
becomes ASCII was ASCII, as the kelvin sign is the only other capital whose small letter is in ASCII;
`lowerCase_eq_iff`, for comparing with a text in ASCII it does not matter how other letters are written.
-/

namespace SchemaTypes.Text

/-- Rows of capitals above ASCII, each with the distance from a letter to its small letter. -/
def smallDistances : List (Nat × Nat × Int) :=
  [
    (0xC0, 0xD6, 32), (0xD8, 0xDE, 32), (0x178, 0x178, -121), (0x181, 0x181, 210),
    (0x186, 0x186, 206), (0x187, 0x187, 1), (0x189, 0x18A, 205), (0x18B, 0x18B, 1),
    (0x18E, 0x18E, 79), (0x18F, 0x18F, 202), (0x190, 0x190, 203), (0x191, 0x191, 1),
    (0x193, 0x193, 205), (0x194, 0x194, 207), (0x196, 0x196, 211), (0x197, 0x197, 209),
    (0x198, 0x198, 1), (0x19C, 0x19C, 211), (0x19D, 0x19D, 213), (0x19F, 0x19F, 214),
    (0x1A6, 0x1A6, 218), (0x1A7, 0x1A7, 1), (0x1A9, 0x1A9, 218), (0x1AC, 0x1AC, 1),
    (0x1AE, 0x1AE, 218), (0x1AF, 0x1AF, 1), (0x1B1, 0x1B2, 217), (0x1B7, 0x1B7, 219),
    (0x1B8, 0x1B8, 1), (0x1BC, 0x1BC, 1), (0x1C4, 0x1C4, 2), (0x1C5, 0x1C5, 1), (0x1C7, 0x1C7, 2),
    (0x1C8, 0x1C8, 1), (0x1CA, 0x1CA, 2), (0x1F1, 0x1F1, 2), (0x1F6, 0x1F6, -97),
    (0x1F7, 0x1F7, -56), (0x220, 0x220, -130), (0x23A, 0x23A, 10795), (0x23B, 0x23B, 1),
    (0x23D, 0x23D, -163), (0x23E, 0x23E, 10792), (0x241, 0x241, 1), (0x243, 0x243, -195),
    (0x244, 0x244, 69), (0x245, 0x245, 71), (0x376, 0x376, 1), (0x37F, 0x37F, 116),
    (0x386, 0x386, 38), (0x388, 0x38A, 37), (0x38C, 0x38C, 64), (0x38E, 0x38F, 63),
    (0x391, 0x3A1, 32), (0x3A3, 0x3AB, 32), (0x3CF, 0x3CF, 8), (0x3F4, 0x3F4, -60),
    (0x3F7, 0x3F7, 1), (0x3F9, 0x3F9, -7), (0x3FA, 0x3FA, 1), (0x3FD, 0x3FF, -130),
    (0x400, 0x40F, 80), (0x410, 0x42F, 32), (0x4C0, 0x4C0, 15), (0x531, 0x556, 48),
    (0x10A0, 0x10C5, 7264), (0x10C7, 0x10C7, 7264), (0x10CD, 0x10CD, 7264),
    (0x13A0, 0x13EF, 38864), (0x13F0, 0x13F5, 8), (0x1C90, 0x1CBA, -3008),
    (0x1CBD, 0x1CBF, -3008), (0x1E9E, 0x1E9E, -7615), (0x1F08, 0x1F0F, -8), (0x1F18, 0x1F1D, -8),
    (0x1F28, 0x1F2F, -8), (0x1F38, 0x1F3F, -8), (0x1F48, 0x1F4D, -8), (0x1F59, 0x1F59, -8),
    (0x1F5B, 0x1F5B, -8), (0x1F5D, 0x1F5D, -8), (0x1F5F, 0x1F5F, -8), (0x1F68, 0x1F6F, -8),
    (0x1F88, 0x1F8F, -8), (0x1F98, 0x1F9F, -8), (0x1FA8, 0x1FAF, -8), (0x1FB8, 0x1FB9, -8),
    (0x1FBA, 0x1FBB, -74), (0x1FBC, 0x1FBC, -9), (0x1FC8, 0x1FCB, -86), (0x1FCC, 0x1FCC, -9),
    (0x1FD8, 0x1FD9, -8), (0x1FDA, 0x1FDB, -100), (0x1FE8, 0x1FE9, -8), (0x1FEA, 0x1FEB, -112),
    (0x1FEC, 0x1FEC, -7), (0x1FF8, 0x1FF9, -128), (0x1FFA, 0x1FFB, -126), (0x1FFC, 0x1FFC, -9),
    (0x2126, 0x2126, -7517), (0x212A, 0x212A, -8383), (0x212B, 0x212B, -8262),
    (0x2132, 0x2132, 28), (0x2160, 0x216F, 16), (0x2183, 0x2183, 1), (0x24B6, 0x24CF, 26),
    (0x2C00, 0x2C2F, 48), (0x2C60, 0x2C60, 1), (0x2C62, 0x2C62, -10743), (0x2C63, 0x2C63, -3814),
    (0x2C64, 0x2C64, -10727), (0x2C6D, 0x2C6D, -10780), (0x2C6E, 0x2C6E, -10749),
    (0x2C6F, 0x2C6F, -10783), (0x2C70, 0x2C70, -10782), (0x2C72, 0x2C72, 1), (0x2C75, 0x2C75, 1),
    (0x2C7E, 0x2C7F, -10815), (0x2CF2, 0x2CF2, 1), (0xA77D, 0xA77D, -35332), (0xA78B, 0xA78B, 1),
    (0xA78D, 0xA78D, -42280), (0xA7AA, 0xA7AA, -42308), (0xA7AB, 0xA7AB, -42319),
    (0xA7AC, 0xA7AC, -42315), (0xA7AD, 0xA7AD, -42305), (0xA7AE, 0xA7AE, -42308),
    (0xA7B0, 0xA7B0, -42258), (0xA7B1, 0xA7B1, -42282), (0xA7B2, 0xA7B2, -42261),
    (0xA7B3, 0xA7B3, 928), (0xA7C4, 0xA7C4, -48), (0xA7C5, 0xA7C5, -42307),
    (0xA7C6, 0xA7C6, -35384), (0xA7D0, 0xA7D0, 1), (0xA7F5, 0xA7F5, 1), (0xFF21, 0xFF3A, 32),
    (0x10400, 0x10427, 40), (0x104B0, 0x104D3, 40), (0x10570, 0x1057A, 39),
    (0x1057C, 0x1058A, 39), (0x1058C, 0x10592, 39), (0x10594, 0x10595, 39),
    (0x10C80, 0x10CB2, 64), (0x118A0, 0x118BF, 32), (0x16E40, 0x16E5F, 32), (0x1E900, 0x1E921, 34)
  ]

/-- Capitals above ASCII that alternate with their small letters. -/
def alternatingSmall : List (Nat × Nat) :=
  [
    (0x100, 0x12E), (0x132, 0x136), (0x139, 0x147), (0x14A, 0x176), (0x179, 0x17D),
    (0x182, 0x184), (0x1A0, 0x1A4), (0x1B3, 0x1B5), (0x1CB, 0x1DB), (0x1DE, 0x1EE),
    (0x1F2, 0x1F4), (0x1F8, 0x21E), (0x222, 0x232), (0x246, 0x24E), (0x370, 0x372),
    (0x3D8, 0x3EE), (0x460, 0x480), (0x48A, 0x4BE), (0x4C1, 0x4CD), (0x4D0, 0x52E),
    (0x1E00, 0x1E94), (0x1EA0, 0x1EFE), (0x2C67, 0x2C6B), (0x2C80, 0x2CE2), (0x2CEB, 0x2CED),
    (0xA640, 0xA66C), (0xA680, 0xA69A), (0xA722, 0xA72E), (0xA732, 0xA76E), (0xA779, 0xA77B),
    (0xA77E, 0xA786), (0xA790, 0xA792), (0xA796, 0xA7A8), (0xA7B4, 0xA7C2), (0xA7C7, 0xA7C9),
    (0xA7D6, 0xA7D8)
  ]

/-- The distance from a letter above ASCII to its small letter, zero if it has none. -/
def smallDistance (n : Nat) : Int :=
  match smallDistances.find? fun r => r.1 ≤ n && n ≤ r.2.1 with
  | some r => r.2.2
  | none => if inAlternating alternatingSmall n then 1 else 0

/-- A character written in small letters, apart from the end of a word. -/
def smallLetters (c : Char) : List Char :=
  if c.toNat < 0x80 then [c.toLower]
  else if c.toNat = 0x130 then ['i', '\u0307']
  else [Char.ofNat ((c.toNat : Int) + smallDistance c.toNat).toNat]

/-- Characters written in small letters behind those in front of them. The rule says of a capital sigma
whether a word ends with it. -/
def lowerFrom (endsWord : List Char → List Char → Bool) (front : List Char) : List Char → List Char
  | [] => []
  | c :: rest =>
    (if c.toNat = 0x3A3 ∧ endsWord front rest then ['\u03C2'] else smallLetters c) ++
      lowerFrom endsWord (front ++ [c]) rest

/-- A text written in small letters. -/
def lowerCase (endsWord : List Char → List Char → Bool) (s : String) : String :=
  String.ofList (lowerFrom endsWord [] s.toList)

/-! ## Letters -/

theorem smallLetters_of_ascii {c : Char} (h : c.toNat < 0x80) : smallLetters c = [c.toLower] := by
  simp [smallLetters, h]

theorem toNat_toLower (c : Char) :
    c.toLower.toNat = if 0x41 ≤ c.toNat ∧ c.toNat ≤ 0x5A then c.toNat + 0x20 else c.toNat := by
  have hcase : (c.val ≥ 'A'.val ∧ c.val ≤ 'Z'.val) ↔ 0x41 ≤ c.toNat ∧ c.toNat ≤ 0x5A := by
    simp [UInt32.le_iff_toNat_le]
  delta Char.toLower
  split
  · rename_i h
    obtain ⟨hlow, hhigh⟩ := hcase.mp h
    rw [if_pos ⟨hlow, hhigh⟩, Char.toNat_mk, UInt32.toNat_add, Char.toNat_val]
    exact Nat.mod_eq_of_lt (show c.toNat + 0x20 < 2 ^ 32 by omega)
  · rename_i h
    rw [if_neg (mt hcase.mpr h)]

theorem toNat_ofNat {n : Nat} (h : n.isValidChar) : (Char.ofNat n).toNat = n := by
  rw [Char.ofNat, dif_pos h]
  rfl

/-- A row leads from characters above ASCII to such characters, or it is that of the kelvin sign. -/
theorem smallDistances_bounds : ∀ r ∈ smallDistances, r = (0x212A, 0x212A, -8383) ∨
    0x80 ≤ (r.1 : Int) + r.2.2 ∧ (r.2.1 : Int) + r.2.2 < 0xD800 ∨
    0xDFFF < (r.1 : Int) + r.2.2 ∧ (r.2.1 : Int) + r.2.2 < 0x110000 := by
  decide +kernel

theorem alternatingSmall_bounds : ∀ r ∈ alternatingSmall, r.2 < 0xD7FF := by
  decide

/-- A capital above ASCII has no small letter in ASCII, but for the kelvin sign. -/
theorem toNat_add_smallDistance {n : Nat} (h : 0x80 ≤ n) (hn : n.isValidChar) :
    n = 0x212A ∧ smallDistance n = -8383 ∨
      ∃ m : Nat, (n : Int) + smallDistance n = m ∧ 0x80 ≤ m ∧ m.isValidChar := by
  unfold smallDistance
  split
  · rename_i r hr
    have hrow := List.find?_some hr
    simp only [Bool.and_eq_true, decide_eq_true_eq] at hrow
    rcases smallDistances_bounds r (List.mem_of_find?_eq_some hr) with rfl | hlow | hhigh
    · exact Or.inl ⟨Nat.le_antisymm hrow.2 hrow.1, rfl⟩
    · exact Or.inr ⟨((n : Int) + r.2.2).toNat, by omega, by omega, Or.inl (by omega)⟩
    · exact Or.inr ⟨((n : Int) + r.2.2).toNat, by omega, by omega, Or.inr ⟨by omega, by omega⟩⟩
  · split
    · rename_i hrow
      simp only [inAlternating, List.any_eq_true, Bool.and_eq_true, decide_eq_true_eq] at hrow
      obtain ⟨r, hr, ⟨-, hle⟩, -⟩ := hrow
      have hbound := alternatingSmall_bounds r hr
      exact Or.inr ⟨n + 1, by omega, by omega, Or.inl (by omega)⟩
    · exact Or.inr ⟨n, by omega, h, hn⟩

/-- A character above ASCII is not written in ASCII alone, unless it is the kelvin sign. -/
theorem exists_mem_smallLetters {c : Char} (h : 0x80 ≤ c.toNat) :
    ∃ d ∈ smallLetters c, 0x80 ≤ d.toNat ∨ d = 'k' := by
  unfold smallLetters
  rw [if_neg (by omega)]
  split
  · exact ⟨'\u0307', by simp, Or.inl (by decide)⟩
  · refine ⟨_, List.mem_singleton_self _, ?_⟩
    rcases toNat_add_smallDistance h c.valid with ⟨hkelvin, hdistance⟩ | ⟨m, hm, hle, hvalid⟩
    · right
      rw [hdistance, hkelvin]
      decide
    · left
      rw [hm, Int.toNat_natCast, toNat_ofNat hvalid]
      exact hle

/-! ## ASCII texts -/

theorem toList_toLower (s : String) : s.toLower.toList = s.toList.map Char.toLower :=
  String.toList_map

variable {endsWord : List Char → List Char → Bool} {front cs : List Char}

/-- Only the ASCII letters of an ASCII text change. -/
theorem lowerFrom_of_ascii (h : ∀ c ∈ cs, c.toNat < 0x80) :
    lowerFrom endsWord front cs = cs.map Char.toLower := by
  induction cs generalizing front with
  | nil => rfl
  | cons c cs ih =>
    rw [List.forall_mem_cons] at h
    rw [lowerFrom, if_neg (by omega), smallLetters_of_ascii h.1, ih h.2]
    rfl

/-- A text that becomes an ASCII text without the small k was in ASCII. -/
theorem forall_lt_of_lowerFrom (h : ∀ d ∈ lowerFrom endsWord front cs, d.toNat < 0x80 ∧ d ≠ 'k') :
    ∀ c ∈ cs, c.toNat < 0x80 := by
  induction cs generalizing front with
  | nil => simp
  | cons c cs ih =>
    rw [lowerFrom, List.forall_mem_append] at h
    rw [List.forall_mem_cons]
    refine ⟨?_, ih h.2⟩
    rcases Nat.lt_or_ge c.toNat 0x80 with hc | hc
    · exact hc
    split at h
    · exact absurd (h.1 _ (List.mem_singleton_self _)).1 (by decide)
    · obtain ⟨d, hd, hle | rfl⟩ := exists_mem_smallLetters hc
      · exact absurd (h.1 d hd).1 (by omega)
      · exact absurd rfl (h.1 _ hd).2

theorem lowerCase_of_ascii {s : String} (h : ∀ c ∈ s.toList, c.toNat < 0x80) :
    lowerCase endsWord s = s.toLower := by
  rw [← String.toList_inj, lowerCase, lowerFrom_of_ascii h, toList_toLower, String.toList_ofList]

theorem forall_lt_of_toLower {s : String} (h : ∀ d ∈ s.toLower.toList, d.toNat < 0x80) :
    ∀ c ∈ s.toList, c.toNat < 0x80 := by
  intro c hc
  rw [toList_toLower, List.forall_mem_map] at h
  have hlower := h c hc
  rw [toNat_toLower] at hlower
  split at hlower <;> omega

/-- For comparing with an ASCII text without the small k it does not matter how letters above ASCII are
written. -/
theorem lowerCase_eq_iff {s t : String} (ht : ∀ d ∈ t.toList, d.toNat < 0x80 ∧ d ≠ 'k') :
    lowerCase endsWord s = t ↔ s.toLower = t := by
  constructor
  · rintro rfl
    rw [lowerCase, String.toList_ofList] at ht
    exact (lowerCase_of_ascii (forall_lt_of_lowerFrom ht)).symm
  · rintro rfl
    exact lowerCase_of_ascii (forall_lt_of_toLower fun d hd => (ht d hd).1)

end SchemaTypes.Text
