/-!
# Sets of characters given by ranges of code points

A table of ranges is the form in which a character property is written down. A range holds its
first and its last code point.
-/

namespace SchemaTypes.Text

/-- Whether one of the ranges holds the code point. -/
def inRanges (ranges : List (Nat × Nat)) (n : Nat) : Bool :=
  ranges.any fun r => r.1 ≤ n && n ≤ r.2

/-- Whether one of the ranges holds the code point, when a range counts only every second one,
starting from its first. Cased alphabets alternate in this way. -/
def inAlternating (ranges : List (Nat × Nat)) (n : Nat) : Bool :=
  ranges.any fun r => r.1 ≤ n && n ≤ r.2 && (n - r.1) % 2 == 0

/-- A property of each of some characters, checked along the list. The characters as a whole can be
enumerated as well, which is the check that must not be made. -/
theorem forall_mem_of_all {p : Char → Prop} [DecidablePred p] {cs : List Char}
    (h : (cs.all fun c => decide (p c)) = true) : ∀ c ∈ cs, p c := by
  simpa using h

end SchemaTypes.Text
