/-!
# Blank characters and trimming

A blank is a character that separates words without a mark of its own: the space, the tab, line
and paragraph ends, the information separators of ASCII and the spaces of other scripts. A text is
trimmed by dropping the blanks at its ends.

Results: `trimEnd_prefix`, a trimmed text is a front of the text; `trim_eq_self`, a text with no blank at
either end is trimmed.
-/

namespace SchemaTypes.Text

/-- The blank characters. -/
def blanks : List Nat :=
  [0x09, 0x0A, 0x0B, 0x0C, 0x0D, 0x1C, 0x1D, 0x1E, 0x1F, 0x20, 0x85, 0xA0, 0x1680, 0x2000, 0x2001,
    0x2002, 0x2003, 0x2004, 0x2005, 0x2006, 0x2007, 0x2008, 0x2009, 0x200A, 0x2028, 0x2029, 0x202F,
    0x205F, 0x3000]

/-- Whether the character is a blank. -/
def isBlank (c : Char) : Bool :=
  blanks.contains c.toNat

/-- The text without the blanks at its end. -/
def trimEnd (cs : List Char) : List Char :=
  (cs.reverse.dropWhile isBlank).reverse

/-- The text without the blanks at either end. -/
def trim (cs : List Char) : List Char :=
  trimEnd (cs.dropWhile isBlank)

theorem trimEnd_prefix (cs : List Char) : trimEnd cs <+: cs := by
  have hsuffix := List.reverse_prefix.mpr (List.dropWhile_suffix (p := isBlank) (l := cs.reverse))
  rwa [List.reverse_reverse] at hsuffix

theorem dropWhile_isBlank_eq_self {cs : List Char} (h : ∀ c ∈ cs.head?, isBlank c = false) :
    cs.dropWhile isBlank = cs := by
  cases cs with
  | nil => rfl
  | cons c cs => simp [h c rfl]

/-- A text with no blank at either end is trimmed. -/
theorem trim_eq_self {cs : List Char} (hfirst : ∀ c ∈ cs.head?, isBlank c = false)
    (hlast : ∀ c ∈ cs.getLast?, isBlank c = false) : trim cs = cs := by
  rw [trim, dropWhile_isBlank_eq_self hfirst, trimEnd,
    dropWhile_isBlank_eq_self (by simpa [List.head?_reverse] using hlast), List.reverse_reverse]

end SchemaTypes.Text
