import Mathlib.Data.List.Cycle
import SchemaTypes.Proofs.References.Reach
import SchemaTypes.References.Cycle

/-!
# Cycles up to rotation

A cycle that is written as a list, closed by its first model, stands for a cycle in the sense of
`Cycle`: a list up to rotation. The key of a cycle is the same for its rotations and for nothing else.
Cycles are noted one after the other, each once up to rotation and no more than are reported.

Results:
* `rotationKey_eq_iff`: keys are equal exactly for rotations.
* `record_eq_note`: recording a cycle by its key is noting it up to rotation.
* `foldl_note_covers`, `foldl_note_distinct`: the cycles that are noted of those that are met are all
  of them, up to rotation, or as many as are reported; and none is a rotation of another one.
-/

namespace SchemaTypes.References

variable {next : String → List String}

/-! ## Keys -/

theorem smallest?_eq_none_iff {nodes : List String} : smallest? nodes = none ↔ nodes = [] := by
  cases nodes with
  | nil => simp [smallest?]
  | cons name names =>
    rw [smallest?]
    split
    · simp
    · split_ifs <;> simp

theorem smallest?_spec {nodes : List String} {least : String} (h : smallest? nodes = some least) :
    least ∈ nodes ∧ ∀ x ∈ nodes, least ≤ x := by
  induction nodes generalizing least with
  | nil => cases h
  | cons name names ih =>
    rw [smallest?] at h
    split at h
    · rename_i hnone
      rw [smallest?_eq_none_iff.mp hnone]
      cases h
      exact ⟨List.mem_cons_self, by simp⟩
    · rename_i other hother
      obtain ⟨hmem, hle⟩ := ih hother
      split_ifs at h with hlt <;> cases h
      · refine ⟨List.mem_cons_of_mem name hmem, ?_⟩
        intro x hx
        rcases List.mem_cons.mp hx with rfl | hx
        · exact String.not_lt.mp (String.lt_asymm hlt)
        · exact hle x hx
      · refine ⟨List.mem_cons_self, ?_⟩
        intro x hx
        rcases List.mem_cons.mp hx with rfl | hx
        · exact String.le_refl x
        · exact String.le_trans (String.not_lt.mp hlt) (hle x hx)

theorem smallest?_eq_of_perm {a b : List String} (h : a.Perm b) : smallest? a = smallest? b := by
  cases ha : smallest? a with
  | none =>
    rw [smallest?_eq_none_iff.mp ha] at h
    rw [List.nil_perm.mp h]
    rfl
  | some m =>
    obtain ⟨hma, hmle⟩ := smallest?_spec ha
    cases hb : smallest? b with
    | none =>
      rw [smallest?_eq_none_iff.mp hb] at h
      rw [List.perm_nil.mp h] at hma
      cases hma
    | some n =>
      obtain ⟨hnb, hnle⟩ := smallest?_spec hb
      rw [String.le_antisymm (hmle n (h.mem_iff.mpr hnb)) (hnle m (h.mem_iff.mp hma))]

/-- A list without repetitions, rotated so that one of its members comes first. -/
theorem rotate_to_member {x y : List String} {m : String} (hnodup : (x ++ y).Nodup) (hm : m ∈ x) :
    (x ++ y).dropWhile (· != m) ++ (x ++ y).takeWhile (· != m) =
      (y ++ x).dropWhile (· != m) ++ (y ++ x).takeWhile (· != m) := by
  obtain ⟨front, back, rfl⟩ := List.append_of_mem hm
  rw [List.append_assoc, List.cons_append] at hnodup
  have hfront : m ∉ front := fun h => hnodup.disjoint h List.mem_cons_self
  have hy : m ∉ y := fun h =>
    (List.nodup_cons.mp hnodup.of_append_right).1 (List.mem_append_right _ h)
  have hyfront : m ∉ y ++ front := by simp [hy, hfront]
  rw [List.append_assoc, List.cons_append, dropWhile_cut hfront, takeWhile_cut hfront,
    ← List.append_assoc, dropWhile_cut hyfront, takeWhile_cut hyfront]
  simp

theorem rotationKey_eq_iff {a b : List String} (hb : b.Nodup) :
    rotationKey? a = rotationKey? b ↔ a ~r b := by
  constructor
  · intro h
    cases hk : rotationKey? b with
    | none =>
      rw [hk] at h
      rw [smallest?_eq_none_iff.mp (Option.map_eq_none_iff.mp h),
        smallest?_eq_none_iff.mp (Option.map_eq_none_iff.mp hk)]
    | some key =>
      rw [hk] at h
      obtain ⟨x, y, rfl, rfl⟩ := key_rotation h
      obtain ⟨x', y', rfl, hkey⟩ := key_rotation hk
      have hxy : (x ++ y) ~r (y ++ x) := List.isRotated_append
      rw [hkey] at hxy
      exact hxy.trans List.isRotated_append
  · rintro ⟨n, rfl⟩
    rw [List.nodup_rotate] at hb
    rw [rotationKey?, rotationKey?, smallest?_eq_of_perm (List.rotate_perm a n)]
    refine Option.map_congr ?_
    intro m hm
    have hma := (smallest?_spec hm).1
    rw [List.rotate_eq_drop_append_take_mod]
    rw [← List.take_append_drop (n % a.length) a] at hb hma
    conv_lhs => rw [← List.take_append_drop (n % a.length) a]
    rcases List.mem_append.mp hma with hma | hma
    · exact rotate_to_member hb hma
    · exact (rotate_to_member (List.nodup_append_comm.mp hb) hma).symm

/-! ## Simple cycles -/

/-- The cycle that a closed list stands for, up to rotation. -/
def ring (cycle : List String) : Cycle String :=
  cycle.dropLast

/-- The simple cycles of references that meet at least two models. -/
def simpleCycles (next : String → List String) : Set (Cycle String) :=
  {c | 2 ≤ c.length ∧ c.Nodup ∧ c.Chain fun u v => v ∈ next u}

theorem mem_simpleCycles_iff {first : String} {rest : List String} :
    ((first :: rest : List String) : Cycle String) ∈ simpleCycles next ↔
      rest ≠ [] ∧ (first :: rest).Nodup ∧ IsPath next (first :: rest ++ [first]) := by
  rw [simpleCycles, Set.mem_ofPred_eq, Cycle.length_coe, Cycle.nodup_coe_iff, Cycle.chain_coe_cons,
    List.length_cons, ← List.length_pos_iff]
  simp only [Nat.reduceLeDiff, List.cons_append]
  constructor
  · rintro ⟨h, hnodup, hpath⟩
    exact ⟨by omega, hnodup, hpath⟩
  · rintro ⟨h, hnodup, hpath⟩
    exact ⟨by omega, hnodup, hpath⟩

/-! ## Noting cycles -/

/-- The cycles found so far and one more, unless there are as many as are reported or one of them is
a rotation of it. -/
def note (found : List (List String)) (cycle : List String) : List (List String) :=
  if cycleLimit ≤ found.length ∨ ∃ other ∈ found, other.dropLast ~r cycle.dropLast then found
  else found ++ [cycle]

/-- Nothing is left to note of a set of cycles: there are as many as are reported, or each of the set
is there. -/
def Covers (found : List (List String)) (C : Set (Cycle String)) : Prop :=
  cycleLimit ≤ found.length ∨ ∀ c ∈ C, ∃ cycle ∈ found, ring cycle = c

/-- The cycles that some closed lists stand for. -/
def rings (cycles : List (List String)) : Set (Cycle String) :=
  {c | ∃ cycle ∈ cycles, ring cycle = c}

theorem record_eq_note {s : Search} {cycle : List String} (hfull : s.isFull = false)
    (hnodup : cycle.dropLast.Nodup) :
    s.record cycle = { s with cycles := note s.cycles cycle } := by
  have hany : (s.cycles.any fun other => cycleKey? other == cycleKey? cycle) = true ↔
      ∃ other ∈ s.cycles, other.dropLast ~r cycle.dropLast := by
    simp only [List.any_eq_true, beq_iff_eq, cycleKey?, rotationKey_eq_iff hnodup]
  have hlimit : ¬ cycleLimit ≤ s.cycles.length := by
    simpa [Search.isFull] using hfull
  rw [Search.record, note]
  simp only [hany, hlimit, false_or]
  split_ifs <;> rfl

section Found

variable {found cycles : List (List String)} {cycle : List String} {C : Set (Cycle String)}

theorem note_of_covers (h : Covers found {ring cycle}) : note found cycle = found := by
  refine if_pos ?_
  rcases h with hfull | hall
  · exact Or.inl hfull
  · obtain ⟨other, hother, hring⟩ := hall (ring cycle) rfl
    exact Or.inr ⟨other, hother, Cycle.coe_eq_coe.mp hring⟩

theorem note_of_not_covers (h : ¬ Covers found {ring cycle}) :
    note found cycle = found ++ [cycle] := by
  refine if_neg ?_
  rintro (hfull | ⟨other, hother, hrot⟩)
  · exact h (Or.inl hfull)
  · refine h (Or.inr ?_)
    rintro c rfl
    exact ⟨other, hother, Cycle.coe_eq_coe.mpr hrot⟩

theorem note_covers : Covers (note found cycle) {ring cycle} := by
  by_cases h : Covers found {ring cycle}
  · rw [note_of_covers h]
    exact h
  · rw [note_of_not_covers h]
    refine Or.inr ?_
    rintro c rfl
    exact ⟨cycle, by simp, rfl⟩

theorem found_grows : found <+: cycles.foldl note found := by
  induction cycles generalizing found with
  | nil => exact List.prefix_rfl
  | cons cycle cycles ih =>
    refine List.IsPrefix.trans ?_ ih
    by_cases h : Covers found {ring cycle}
    · rw [note_of_covers h]
    · rw [note_of_not_covers h]
      exact List.prefix_append found [cycle]

theorem Covers.mono {more : List (List String)} (h : Covers found C) (hmore : found <+: more) :
    Covers more C := by
  rcases h with hfull | hall
  · exact Or.inl (hfull.trans hmore.length_le)
  · refine Or.inr ?_
    intro c hc
    obtain ⟨cycle, hcycle, hring⟩ := hall c hc
    exact ⟨cycle, hmore.subset hcycle, hring⟩

theorem Covers.subset {D : Set (Cycle String)} (h : Covers found C) (hD : D ⊆ C) :
    Covers found D :=
  h.imp id fun hall c hc => hall c (hD hc)

theorem foldl_note_of_covers (h : Covers found (rings cycles)) :
    cycles.foldl note found = found := by
  induction cycles with
  | nil => rfl
  | cons cycle cycles ih =>
    have hfirst : {ring cycle} ⊆ rings (cycle :: cycles) := by
      rintro c rfl
      exact ⟨cycle, List.mem_cons_self, rfl⟩
    have hrest : rings cycles ⊆ rings (cycle :: cycles) := by
      rintro c ⟨other, hother, hring⟩
      exact ⟨other, List.mem_cons_of_mem cycle hother, hring⟩
    rw [List.foldl_cons, note_of_covers (h.subset hfirst)]
    exact ih (h.subset hrest)

/-- All cycles that were met are noted, unless there are as many as are reported. -/
theorem foldl_note_covers : Covers (cycles.foldl note found) (rings cycles) := by
  induction cycles generalizing found with
  | nil =>
    refine Or.inr ?_
    rintro c ⟨cycle, hcycle, _⟩
    cases hcycle
  | cons cycle cycles ih =>
    have hfirst : Covers (cycles.foldl note (note found cycle)) {ring cycle} :=
      note_covers.mono found_grows
    have hrest : Covers (cycles.foldl note (note found cycle)) (rings cycles) := ih
    rcases hrest with hfull | hall
    · exact Or.inl hfull
    · rcases hfirst with hfull | hfirst
      · exact Or.inl hfull
      · refine Or.inr ?_
        rintro c ⟨other, hother, rfl⟩
        rcases List.mem_cons.mp hother with rfl | hother
        · exact hfirst _ rfl
        · exact hall _ ⟨other, hother, rfl⟩

/-- What holds of the cycles found so far: they are no more than are reported, and none is a rotation
of another one. -/
structure Distinct (found : List (List String)) : Prop where
  length_le : found.length ≤ cycleLimit
  pairwise : found.Pairwise fun a b => ¬ a.dropLast ~r b.dropLast

theorem Distinct.nil : Distinct [] :=
  ⟨by simp, List.Pairwise.nil⟩

theorem Distinct.note (h : Distinct found) : Distinct (note found cycle) := by
  by_cases hc : Covers found {ring cycle}
  · rw [note_of_covers hc]
    exact h
  · rw [note_of_not_covers hc]
    rw [Covers, not_or, not_le] at hc
    refine ⟨?_, ?_⟩
    · rw [List.length_append, List.length_singleton]
      exact hc.1
    · rw [List.pairwise_append]
      refine ⟨h.pairwise, List.pairwise_singleton _ _, ?_⟩
      intro a ha b hb hrot
      rw [List.mem_singleton.mp hb] at hrot
      refine hc.2 ?_
      rintro c rfl
      exact ⟨a, ha, Cycle.coe_eq_coe.mpr hrot⟩

theorem foldl_note_distinct (h : Distinct found) : Distinct (cycles.foldl note found) := by
  induction cycles generalizing found with
  | nil => exact h
  | cons cycle cycles ih => exact ih h.note

theorem Distinct.rings_nodup (h : Distinct found) : (found.map ring).Nodup := by
  rw [List.Nodup, List.pairwise_map]
  exact h.pairwise.imp fun hrot he => hrot (Cycle.coe_eq_coe.mp he)

theorem mem_foldl_note (h : cycle ∈ cycles.foldl note found) : cycle ∈ found ∨ cycle ∈ cycles := by
  induction cycles generalizing found with
  | nil => exact Or.inl h
  | cons first cycles ih =>
    rcases ih h with hmem | hmem
    · by_cases hc : Covers found {ring first}
      · rw [note_of_covers hc] at hmem
        exact Or.inl hmem
      · rw [note_of_not_covers hc] at hmem
        rcases List.mem_append.mp hmem with hmem | hmem
        · exact Or.inl hmem
        · rw [List.mem_singleton.mp hmem]
          exact Or.inr List.mem_cons_self
    · exact Or.inr (List.mem_cons_of_mem first hmem)

end Found

end SchemaTypes.References
