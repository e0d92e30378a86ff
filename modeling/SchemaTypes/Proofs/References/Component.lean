import Mathlib.Data.Set.Card
import Mathlib.Order.Interval.Finset.Nat
import SchemaTypes.Proofs.References.Reach
import SchemaTypes.References.Component

/-!
# The components of the reference graph

Two models get the same number exactly if each reaches the other. The proof follows the search: an
invariant says what holds between two steps of it while some models are being searched (`active`), and
each step keeps the invariant. A model with the least index that its part of the stack leads back to
is complete if that index is its own.

Results:
* `connect_connected`: the search continued at a model keeps the invariant.
* `survey_consistent`: in the end no model is on the stack.
* `componentNumbers_spec`: the numbers are those of the classes of mutual reachability, and no
  reference leads to a higher number.
-/

namespace SchemaTypes.References

variable {next : String → List String} {order : List String}

/-! ## Numbers -/

/-- Models with numbers below `count`: equal for models that reach each other, and for no others.
References lead from numbered models to numbered models, and never to a higher number. -/
structure Numbered (next : String → List String) (numbers : List (String × Nat)) (count : Nat) :
    Prop where
  closed : ∀ x n, (x, n) ∈ numbers → ∀ y ∈ next x, ∃ m ≤ n, (y, m) ∈ numbers
  eq_iff : ∀ x n y m, (x, n) ∈ numbers → (y, m) ∈ numbers → (n = m ↔ Mutual next x y)
  lt : ∀ x n, (x, n) ∈ numbers → n < count
  used : ∀ n < count, ∃ x, (x, n) ∈ numbers

namespace Numbered

variable {numbers : List (String × Nat)} {count : Nat}

theorem nil : Numbered next [] 0 :=
  ⟨by simp, by simp, by simp, by simp⟩

theorem mem_of_reaches (h : Numbered next numbers count) {x y : String} {n : Nat}
    (hx : (x, n) ∈ numbers) (hxy : Reaches next x y) : ∃ m, (y, m) ∈ numbers := by
  refine hxy.mem_of_closed (S := fun z => ∃ m, (z, m) ∈ numbers) ?_ ⟨n, hx⟩
  rintro u ⟨m, hu⟩ v hv
  obtain ⟨k, _, hk⟩ := h.closed u m hu v hv
  exact ⟨k, hk⟩

theorem lookup_eq_some_iff (h : Numbered next numbers count) {x : String} {n : Nat} :
    numbers.lookup x = some n ↔ (x, n) ∈ numbers := by
  have hmem : ∀ m, numbers.lookup x = some m → (x, m) ∈ numbers := by
    intro m hm
    obtain ⟨before, after, rfl, _⟩ := List.lookup_eq_some_iff.mp hm
    simp
  constructor
  · exact hmem n
  · intro hx
    cases hl : numbers.lookup x with
    | none =>
      have := List.lookup_eq_none_iff.mp hl (x, n) hx
      simp at this
    | some m =>
      rw [(h.eq_iff x m x n (hmem m hl) hx).mpr (Mutual.refl x)]

/-- A class of mutual reachability gets the next number. All that its members refer to is in the class
or has a number already. -/
theorem append (h : Numbered next numbers count) {members : List String} (hne : members ≠ [])
    (hfresh : ∀ x ∈ members, ∀ n, (x, n) ∉ numbers)
    (hmutual : ∀ x ∈ members, ∀ y ∈ members, Mutual next x y)
    (hclosed : ∀ x ∈ members, ∀ y ∈ next x, y ∈ members ∨ ∃ m, (y, m) ∈ numbers) :
    Numbered next (numbers ++ members.map fun x => (x, count)) (count + 1) := by
  have hcases : ∀ x n, (x, n) ∈ numbers ++ members.map (fun x => (x, count)) ↔
      (x, n) ∈ numbers ∨ x ∈ members ∧ n = count := by
    intro x n
    simp only [List.mem_append, List.mem_map, Prod.mk.injEq]
    constructor
    · rintro (hx | ⟨y, hy, rfl, rfl⟩)
      · exact Or.inl hx
      · exact Or.inr ⟨hy, rfl⟩
    · rintro (hx | ⟨hx, rfl⟩)
      · exact Or.inl hx
      · exact Or.inr ⟨x, hx, rfl, rfl⟩
  -- An old model cannot reach a new one, for all that it reaches was numbered before.
  have hold : ∀ x n y, (x, n) ∈ numbers → y ∈ members → ¬ Reaches next x y := by
    intro x n y hx hy hxy
    obtain ⟨m, hm⟩ := h.mem_of_reaches hx hxy
    exact hfresh y hy m hm
  refine ⟨?_, ?_, ?_, ?_⟩
  · intro x n hxn y hy
    rcases (hcases x n).mp hxn with hx | ⟨hx, rfl⟩
    · obtain ⟨m, hmn, hm⟩ := h.closed x n hx y hy
      exact ⟨m, hmn, (hcases y m).mpr (Or.inl hm)⟩
    · rcases hclosed x hx y hy with hy | ⟨m, hm⟩
      · exact ⟨n, le_rfl, (hcases y n).mpr (Or.inr ⟨hy, rfl⟩)⟩
      · exact ⟨m, (h.lt y m hm).le, (hcases y m).mpr (Or.inl hm)⟩
  · intro x n y m hxn hym
    rcases (hcases x n).mp hxn with hx | ⟨hx, rfl⟩ <;>
      rcases (hcases y m).mp hym with hy | ⟨hy, rfl⟩
    · exact h.eq_iff x n y m hx hy
    · have hlt := h.lt x n hx
      exact ⟨fun he => by omega, fun hm => absurd hm.1 (hold x n y hx hy)⟩
    · have hlt := h.lt y m hy
      exact ⟨fun he => by omega, fun hm => absurd hm.2 (hold y m x hy hx)⟩
    · exact ⟨fun _ => hmutual x hx y hy, fun _ => rfl⟩
  · intro x n hxn
    rcases (hcases x n).mp hxn with hx | ⟨_, rfl⟩
    · have := h.lt x n hx
      omega
    · omega
  · intro n hn
    rcases Nat.lt_succ_iff_lt_or_eq.mp hn with hn | rfl
    · obtain ⟨x, hx⟩ := h.used n hn
      exact ⟨x, (hcases x n).mpr (Or.inl hx)⟩
    · obtain ⟨x, hx⟩ := List.exists_mem_of_ne_nil members hne
      exact ⟨x, (hcases x n).mpr (Or.inr ⟨hx, rfl⟩)⟩

end Numbered

/-! ## The invariant -/

namespace Survey

/-- What holds between two steps of the search while the models of `active` are being searched. -/
structure Consistent (next : String → List String) (order : List String) (s : Survey)
    (active : List String) : Prop where
  nodup : s.entered.Nodup
  subset : ∀ x ∈ s.entered, x ∈ order
  stack_entered : ∀ x ∈ s.stack, x ∈ s.entered
  placed : ∀ x ∈ s.entered, x ∈ s.stack ∨ ∃ n, (x, n) ∈ s.numbers
  numbered_entered : ∀ x n, (x, n) ∈ s.numbers → x ∈ s.entered ∧ x ∉ s.stack
  /-- Every model on the stack reaches those above it, which were entered later. -/
  stack_order : s.stack.Pairwise fun a b => s.index b < s.index a ∧ Reaches next b a
  active_stack : ∀ a ∈ active, a ∈ s.stack
  /-- Every model on the stack leads back to one that is being searched. -/
  stack_active : ∀ x ∈ s.stack, ∃ a ∈ active, s.index a ≤ s.index x ∧ Reaches next x a
  finished : ∀ x ∈ s.entered, x ∉ active → ∀ y ∈ next x, y ∈ s.entered
  numbered : Numbered next s.numbers s.roots.length

theorem index_of_grown {s t : Survey} (h : s.entered <+: t.entered) {x : String}
    (hx : x ∈ s.entered) : t.index x = s.index x := by
  obtain ⟨rest, hrest⟩ := h
  rw [index, index, ← hrest, List.idxOf_append, if_pos hx]

theorem index_lt {s : Survey} {x : String} (hx : x ∈ s.entered) : s.index x < s.entered.length :=
  List.idxOf_lt_length_iff.mpr hx

theorem index_enter_self {s : Survey} {node : String} (h : node ∉ s.entered) :
    (s.enter node).index node = s.entered.length := by
  rw [index, enter, List.idxOf_append, if_neg h]
  simp

theorem Consistent.stack_nodup {s : Survey} {active : List String}
    (h : s.Consistent next order active) : s.stack.Nodup := by
  refine h.stack_order.imp ?_
  rintro a b ⟨hlt, _⟩ rfl
  exact lt_irrefl _ hlt

theorem Consistent.empty : Consistent next order {} [] where
  nodup := List.nodup_nil
  subset := by simp
  stack_entered := by simp
  placed := by simp
  numbered_entered := by simp
  stack_order := List.Pairwise.nil
  active_stack := by simp
  stack_active := by simp
  finished := by simp
  numbered := Numbered.nil

/-- A model is entered when it is reached from all models that are being searched. -/
theorem Consistent.enter {s : Survey} {active : List String} (h : s.Consistent next order active)
    {node : String} (hfresh : node ∉ s.entered) (hnode : node ∈ order)
    (hactive : ∀ a ∈ active, Reaches next a node) :
    (s.enter node).Consistent next order (node :: active) := by
  have hindex : ∀ x ∈ s.entered, (s.enter node).index x = s.index x := fun x hx => index_enter hx
  have hself : (s.enter node).index node = s.entered.length := index_enter_self hfresh
  have hmem : ∀ x, x ∈ (s.enter node).entered ↔ x ∈ s.entered ∨ x = node := by
    simp [Survey.enter]
  refine
    { nodup := ?_
      subset := ?_
      stack_entered := ?_
      placed := ?_
      numbered_entered := ?_
      stack_order := ?_
      active_stack := ?_
      stack_active := ?_
      finished := ?_
      numbered := h.numbered }
  · exact nodup_concat h.nodup hfresh
  · exact forall_mem_concat h.subset hnode
  · intro x hx
    rcases List.mem_cons.mp hx with rfl | hx
    · exact (hmem x).mpr (Or.inr rfl)
    · exact (hmem x).mpr (Or.inl (h.stack_entered x hx))
  · intro x hx
    rcases (hmem x).mp hx with hx | rfl
    · rcases h.placed x hx with hx | hx
      · exact Or.inl (List.mem_cons_of_mem node hx)
      · exact Or.inr hx
    · exact Or.inl List.mem_cons_self
  · intro x n hx
    obtain ⟨hent, hstack⟩ := h.numbered_entered x n hx
    refine ⟨(hmem x).mpr (Or.inl hent), ?_⟩
    intro hx'
    rcases List.mem_cons.mp hx' with rfl | hx'
    · exact hfresh hent
    · exact hstack hx'
  · refine List.Pairwise.cons ?_ ?_
    · intro b hb
      have hbe := h.stack_entered b hb
      obtain ⟨a, ha, _, hba⟩ := h.stack_active b hb
      rw [hindex b hbe, hself]
      exact ⟨index_lt hbe, hba.trans (hactive a ha)⟩
    · refine h.stack_order.imp_of_mem ?_
      intro a b ha hb hab
      rw [hindex a (h.stack_entered a ha), hindex b (h.stack_entered b hb)]
      exact hab
  · intro a ha
    rcases List.mem_cons.mp ha with rfl | ha
    · exact List.mem_cons_self
    · exact List.mem_cons_of_mem node (h.active_stack a ha)
  · intro x hx
    rcases List.mem_cons.mp hx with rfl | hx
    · exact ⟨x, List.mem_cons_self, le_rfl, .refl⟩
    · obtain ⟨a, ha, hle, hxa⟩ := h.stack_active x hx
      refine ⟨a, List.mem_cons_of_mem node ha, ?_, hxa⟩
      rw [hindex a (h.stack_entered a (h.active_stack a ha)), hindex x (h.stack_entered x hx)]
      exact hle
  · intro x hx hxa y hy
    rw [List.mem_cons, not_or] at hxa
    rcases (hmem x).mp hx with hx | rfl
    · exact (hmem y).mpr (Or.inl (h.finished x hx hxa.2 y hy))
    · exact absurd rfl hxa.1

end Survey

/-! ## One model searched -/

open Survey

/-- What a search has done that was continued at `node` in the state `s`. -/
structure Connected (next : String → List String) (order : List String) (s : Survey)
    (active : List String) (node : String) (r : Return) : Prop where
  consistent : r.survey.Consistent next order active
  grown : s.entered <+: r.survey.entered
  node_entered : node ∈ r.survey.entered
  /-- No reference leads from what it left on the stack to below the index that it returns. -/
  stack : ∃ above, r.survey.stack = above ++ s.stack ∧
    ∀ x ∈ above, ∀ y ∈ next x, y ∈ s.stack → r.low ≤ s.index y
  low : s.entered.length ≤ r.low ∨ ∃ y ∈ s.stack, s.index y = r.low ∧ Reaches next node y

/-- The search at `node`, which was entered in the state `s`, after the references `done`. -/
structure Following (next : String → List String) (order : List String) (s : Survey)
    (active : List String) (node : String) (done : List String) (r : Return) : Prop where
  consistent : r.survey.Consistent next order (node :: active)
  grown : (s.enter node).entered <+: r.survey.entered
  stack : ∃ above, r.survey.stack = above ++ node :: s.stack ∧
    ∀ x ∈ above, ∀ y ∈ next x, y ∈ s.stack → r.low ≤ s.index y
  seen : ∀ y ∈ done, y ∈ r.survey.entered ∧ (y ∈ s.stack → r.low ≤ s.index y)
  low_le : r.low ≤ s.entered.length
  low : s.entered.length ≤ r.low ∨ ∃ y ∈ s.stack, s.index y = r.low ∧ Reaches next node y

namespace Following

variable {s : Survey} {active done : List String} {node : String} {r : Return}

theorem grown_left (h : Following next order s active node done r) :
    s.entered <+: r.survey.entered :=
  (List.prefix_append s.entered [node]).trans h.grown

theorem node_entered (h : Following next order s active node done r) :
    node ∈ r.survey.entered :=
  h.grown.subset (by simp [enter])

theorem index_node (h : Following next order s active node done r) (hfresh : node ∉ s.entered) :
    r.survey.index node = s.entered.length := by
  rw [index_of_grown h.grown (by simp [enter]), index_enter_self hfresh]

/-- A model on the stack was there before, or its index is at least that of the model searched. -/
theorem mem_stack (h : Following next order s active node done r) (hfresh : node ∉ s.entered)
    {y : String} (hy : y ∈ r.survey.stack) : y ∈ s.stack ∨ s.entered.length ≤ r.survey.index y := by
  obtain ⟨above, habove, _⟩ := h.stack
  have hnode := h.index_node hfresh
  have horder := h.consistent.stack_order
  rw [habove] at hy horder
  rcases List.mem_append.mp hy with hy | hy
  · have := ((List.pairwise_append.mp horder).2.2 y hy node List.mem_cons_self).1
    exact Or.inr (by omega)
  · rcases List.mem_cons.mp hy with rfl | hy
    · exact Or.inr (by omega)
    · exact Or.inl hy

/-- The least index stays that of a model below on the stack that is reached, if there is any. -/
theorem low_min (h : Following next order s active node done r) {v : Nat}
    (hv : s.entered.length ≤ v ∨ ∃ y ∈ s.stack, s.index y = v ∧ Reaches next node y) :
    s.entered.length ≤ min r.low v ∨
      ∃ y ∈ s.stack, s.index y = min r.low v ∧ Reaches next node y := by
  rcases le_total r.low v with hle | hle
  · rw [min_eq_left hle]
    exact h.low
  · rw [min_eq_right hle]
    exact hv

theorem start (hs : s.Consistent next order active) (hfresh : node ∉ s.entered)
    (hnode : node ∈ order) (hactive : ∀ a ∈ active, Reaches next a node) :
    Following next order s active node []
      { survey := s.enter node, low := s.entered.length } where
  consistent := hs.enter hfresh hnode hactive
  grown := List.prefix_rfl
  stack := ⟨[], rfl, by simp⟩
  seen := by simp
  low_le := le_rfl
  low := Or.inl le_rfl

/-- A reference to a model that was not entered yet. -/
theorem child (h : Following next order s active node done r) (hs : s.Consistent next order active)
    (hfresh : node ∉ s.entered) {target : String} (htarget : target ∈ next node)
    (hnew : target ∉ r.survey.entered) {inner : Return}
    (hinner : Connected next order r.survey (node :: active) target inner) :
    Following next order s active node (done ++ [target])
      { survey := inner.survey, low := min r.low inner.low } := by
  obtain ⟨above, habove, hlow⟩ := h.stack
  obtain ⟨above', habove', hlow'⟩ := hinner.stack
  have hindex : ∀ y ∈ s.stack, r.survey.index y = s.index y := fun y hy =>
    index_of_grown h.grown_left (hs.stack_entered y hy)
  have hbelow : ∀ y ∈ s.stack, y ∈ r.survey.stack := by
    intro y hy
    rw [habove]
    exact List.mem_append_right _ (List.mem_cons_of_mem _ hy)
  refine
    { consistent := hinner.consistent
      grown := h.grown.trans hinner.grown
      stack := ⟨above' ++ above, by rw [habove', habove, List.append_assoc], ?_⟩
      seen := forall_mem_concat ?_ ⟨hinner.node_entered, ?_⟩
      low_le := (min_le_left _ _).trans h.low_le
      low := h.low_min ?_ }
  · intro x hx y hy hys
    rcases List.mem_append.mp hx with hx | hx
    · rw [← hindex y hys]
      exact (min_le_right _ _).trans (hlow' x hx y hy (hbelow y hys))
    · exact (min_le_left _ _).trans (hlow x hx y hy hys)
  · intro y hy
    obtain ⟨hentered, hle⟩ := h.seen y hy
    exact ⟨hinner.grown.subset hentered, fun hys => (min_le_left _ _).trans (hle hys)⟩
  · intro hys
    exact absurd (h.grown_left.subset (hs.stack_entered target hys)) hnew
  · rcases hinner.low with hle | ⟨y, hy, hyl, hty⟩
    · exact Or.inl (h.grown_left.length_le.trans hle)
    · rcases h.mem_stack hfresh hy with hys | hge
      · exact Or.inr ⟨y, hys, by rw [← hindex y hys, hyl], .head htarget hty⟩
      · exact Or.inl (by omega)

/-- A reference to a model on the stack. -/
theorem back (h : Following next order s active node done r) (hs : s.Consistent next order active)
    (hfresh : node ∉ s.entered) {target : String} (htarget : target ∈ next node)
    (hstack : target ∈ r.survey.stack) :
    Following next order s active node (done ++ [target])
      { r with low := min r.low (r.survey.index target) } := by
  obtain ⟨above, habove, hlow⟩ := h.stack
  have hindex : ∀ y ∈ s.stack, r.survey.index y = s.index y := fun y hy =>
    index_of_grown h.grown_left (hs.stack_entered y hy)
  refine
    { consistent := h.consistent
      grown := h.grown
      stack := ⟨above, habove, fun x hx y hy hys => (min_le_left _ _).trans (hlow x hx y hy hys)⟩
      seen := forall_mem_concat ?_ ⟨h.consistent.stack_entered target hstack, ?_⟩
      low_le := (min_le_left _ _).trans h.low_le
      low := h.low_min ?_ }
  · intro y hy
    obtain ⟨hentered, hle⟩ := h.seen y hy
    exact ⟨hentered, fun hys => (min_le_left _ _).trans (hle hys)⟩
  · intro hys
    rw [← hindex target hys]
    exact min_le_right _ _
  · rcases h.mem_stack hfresh hstack with hys | hge
    · exact Or.inr ⟨target, hys, (hindex target hys).symm, .single htarget⟩
    · exact Or.inl hge

/-- A reference to a model of a component that is complete. -/
theorem pass (h : Following next order s active node done r) {target : String}
    (hentered : target ∈ r.survey.entered) (hstack : target ∉ r.survey.stack) :
    Following next order s active node (done ++ [target]) r := by
  obtain ⟨above, habove, _⟩ := h.stack
  refine { h with seen := forall_mem_concat h.seen ⟨hentered, ?_⟩ }
  intro hys
  rw [habove] at hstack
  exact absurd (List.mem_append_right _ (List.mem_cons_of_mem _ hys)) hstack

/-- One reference keeps the invariant if the search at models that were not entered does. -/
theorem follow (h : Following next order s active node done r) (hs : s.Consistent next order active)
    (hfresh : node ∉ s.entered) {target : String} (htarget : target ∈ next node)
    {search : Survey → String → Return}
    (hsearch : target ∉ r.survey.entered →
      Connected next order r.survey (node :: active) target (search r.survey target)) :
    Following next order s active node (done ++ [target]) (r.follow search target) := by
  by_cases hentered : target ∈ r.survey.entered
  · by_cases hstack : target ∈ r.survey.stack
    · rw [Return.follow_open hentered hstack]
      exact h.back hs hfresh htarget hstack
    · rw [Return.follow_closed hentered hstack]
      exact h.pass hentered hstack
  · rw [Return.follow_new hentered]
    exact h.child hs hfresh htarget hentered (hsearch hentered)

/-- When all references of the model are followed, those of every model that is not being searched below it lead
to models that were entered. -/
theorem finished (h : Following next order s active node (next node) r) {x : String}
    (hx : x ∈ r.survey.entered) (hxa : x ∉ active) {y : String} (hy : y ∈ next x) : y ∈ r.survey.entered := by
  by_cases hxn : x = node
  · rw [hxn] at hy
    exact (h.seen y hy).1
  · exact h.consistent.finished x hx (by simp [hxn, hxa]) y hy

/-- The model stays on the stack, which leads back to a model below it. -/
theorem leave (h : Following next order s active node (next node) r)
    (hs : s.Consistent next order active) (hfresh : node ∉ s.entered)
    (hlow : r.low ≠ s.entered.length) : Connected next order s active node r := by
  obtain ⟨above, habove, hcross⟩ := h.stack
  have hnode := h.index_node hfresh
  refine
    { consistent := { h.consistent with active_stack := ?_, stack_active := ?_, finished := ?_ }
      grown := h.grown_left
      node_entered := h.node_entered
      stack := ⟨above ++ [node], by simp [habove], ?_⟩
      low := h.low }
  · intro a ha
    exact h.consistent.active_stack a (List.mem_cons_of_mem node ha)
  · intro x hx
    obtain ⟨a, ha, hle, hxa⟩ := h.consistent.stack_active x hx
    rcases List.mem_cons.mp ha with rfl | ha
    · -- What led back to the model itself leads on to the one below it.
      rcases h.low with hge | ⟨y, hy, hyl, hay⟩
      · exact absurd (le_antisymm h.low_le hge) hlow
      · have hlt : r.low < s.entered.length := lt_of_le_of_ne h.low_le hlow
        obtain ⟨b, hb, hby, hyb⟩ := hs.stack_active y hy
        have hbs := hs.stack_entered b (hs.active_stack b hb)
        have hbi := index_of_grown h.grown_left hbs
        exact ⟨b, hb, by omega, hxa.trans (hay.trans hyb)⟩
    · exact ⟨a, ha, hle, hxa⟩
  · exact fun x hx hxa y hy => h.finished hx hxa hy
  · exact forall_mem_concat hcross fun y hy => (h.seen y hy).2

/-- What was on the stack before is not among the models from `node` upwards. -/
theorem notMem_members (h : Following next order s active node done r) {above : List String}
    (habove : r.survey.stack = above ++ node :: s.stack) {y : String} (hy : y ∈ s.stack) :
    y ∉ above ++ [node] := by
  have hnodup := h.consistent.stack_nodup
  rw [habove, List.append_cons] at hnodup
  exact fun hmem => hnodup.disjoint hmem hy

/-- If no reference leads below `node` on the stack, those of the models from `node` upwards stay
among them or lead to models with numbers. -/
theorem members_closed (h : Following next order s active node (next node) r)
    (hs : s.Consistent next order active) (hlow : r.low = s.entered.length) {above : List String}
    (habove : r.survey.stack = above ++ node :: s.stack)
    (hcross : ∀ x ∈ above, ∀ y ∈ next x, y ∈ s.stack → r.low ≤ s.index y) :
    ∀ x ∈ above ++ [node], ∀ y ∈ next x,
      y ∈ above ++ [node] ∨ ∃ m, (y, m) ∈ r.survey.numbers := by
  have hnodup := h.consistent.stack_nodup
  rw [habove] at hnodup
  have hactive : ∀ x ∈ above, x ∉ node :: active := by
    intro x hx hmem
    rcases List.mem_cons.mp hmem with rfl | ha
    · exact hnodup.disjoint hx List.mem_cons_self
    · exact h.notMem_members habove (hs.active_stack x ha) (List.mem_append_left _ hx)
  have hseen : ∀ x ∈ above ++ [node], ∀ y ∈ next x,
      y ∈ r.survey.entered ∧ (y ∈ s.stack → r.low ≤ s.index y) := by
    refine forall_mem_concat ?_ h.seen
    intro x hx y hy
    have hxe : x ∈ r.survey.entered := by
      apply h.consistent.stack_entered
      rw [habove]
      exact List.mem_append_left _ hx
    exact ⟨h.consistent.finished x hxe (hactive x hx) y hy, hcross x hx y hy⟩
  intro x hx y hy
  obtain ⟨hentered, hle⟩ := hseen x hx y hy
  rcases h.consistent.placed y hentered with hys | hnumber
  · rw [habove, List.append_cons] at hys
    rcases List.mem_append.mp hys with hya | hys
    · exact Or.inl hya
    · have hlt := index_lt (hs.stack_entered y hys)
      have hge := hle hys
      omega
  · exact Or.inr hnumber

/-- In this case each of these models reaches `node` and is reached from it. -/
theorem members_mutual (h : Following next order s active node done r)
    (hs : s.Consistent next order active) {above : List String}
    (habove : r.survey.stack = above ++ node :: s.stack)
    (hclosed : ∀ x ∈ above ++ [node], ∀ y ∈ next x,
      y ∈ above ++ [node] ∨ ∃ m, (y, m) ∈ r.survey.numbers) :
    ∀ x ∈ above ++ [node], Mutual next node x := by
  have horder := h.consistent.stack_order
  rw [habove] at horder
  intro x hx
  constructor
  · rcases List.mem_append.mp hx with hx | hx
    · exact ((List.pairwise_append.mp horder).2.2 x hx node List.mem_cons_self).2
    · rw [List.mem_singleton.mp hx]
  · have hxs : x ∈ r.survey.stack := by
      rw [habove, List.append_cons]
      exact List.mem_append_left _ hx
    obtain ⟨a, ha, _, hxa⟩ := h.consistent.stack_active x hxs
    rcases List.mem_cons.mp ha with rfl | ha
    · exact hxa
    · -- No path leads from here to a model below on the stack.
      have has := hs.active_stack a ha
      have hkeep : a ∈ above ++ [node] ∨ ∃ m, (a, m) ∈ r.survey.numbers := by
        refine hxa.mem_of_closed
          (S := fun y => y ∈ above ++ [node] ∨ ∃ m, (y, m) ∈ r.survey.numbers) ?_ (Or.inl hx)
        rintro u (hu | ⟨m, hu⟩) v hv
        · exact hclosed u hu v hv
        · obtain ⟨k, _, hk⟩ := h.consistent.numbered.closed u m hu v hv
          exact Or.inr ⟨k, hk⟩
      rcases hkeep with hmem | ⟨m, hm⟩
      · exact absurd hmem (h.notMem_members habove has)
      · refine absurd ?_ (h.consistent.numbered_entered a m hm).2
        rw [habove]
        exact List.mem_append_right _ (List.mem_cons_of_mem _ has)

/-- The models from `node` upwards on the stack are a component if no reference leads below them. -/
theorem complete (h : Following next order s active node (next node) r)
    (hs : s.Consistent next order active) (hlow : r.low = s.entered.length) :
    Connected next order s active node { r with survey := r.survey.complete node } := by
  obtain ⟨above, habove, hcross⟩ := h.stack
  have hclosed := h.members_closed hs hlow habove hcross
  have hmutual := h.members_mutual hs habove hclosed
  have hnode : node ∉ above := by
    have hnodup := h.consistent.stack_nodup
    rw [habove] at hnodup
    exact fun hmem => hnodup.disjoint hmem List.mem_cons_self
  have hmem : ∀ x, x ∈ r.survey.stack ↔ x ∈ above ++ [node] ∨ x ∈ s.stack := by
    intro x
    rw [habove, List.append_cons, List.mem_append]
  have hindex : ∀ x ∈ s.stack, r.survey.index x = s.index x := fun x hx =>
    index_of_grown h.grown_left (hs.stack_entered x hx)
  rw [complete_split habove hnode]
  refine
    { consistent :=
        { nodup := h.consistent.nodup
          subset := h.consistent.subset
          stack_entered := ?_
          placed := ?_
          numbered_entered := ?_
          stack_order := ?_
          active_stack := hs.active_stack
          stack_active := ?_
          finished := ?_
          numbered := ?_ }
      grown := h.grown_left
      node_entered := h.node_entered
      stack := ⟨[], rfl, by simp⟩
      low := Or.inl hlow.ge }
  · intro x hx
    exact h.grown_left.subset (hs.stack_entered x hx)
  · intro x hx
    rcases h.consistent.placed x hx with hx | ⟨n, hx⟩
    · rcases (hmem x).mp hx with hx | hx
      · exact Or.inr ⟨_, List.mem_append_right _ (List.mem_map_of_mem hx)⟩
      · exact Or.inl hx
    · exact Or.inr ⟨n, List.mem_append_left _ hx⟩
  · intro x n hx
    rcases List.mem_append.mp hx with hx | hx
    · obtain ⟨hent, hstack⟩ := h.consistent.numbered_entered x n hx
      exact ⟨hent, fun hxs => hstack ((hmem x).mpr (Or.inr hxs))⟩
    · obtain ⟨y, hy, he⟩ := List.mem_map.mp hx
      obtain ⟨rfl, _⟩ := Prod.mk.inj he
      exact ⟨h.consistent.stack_entered y ((hmem y).mpr (Or.inl hy)),
        fun hxs => h.notMem_members habove hxs hy⟩
  · have horder := h.consistent.stack_order
    rw [habove, List.append_cons] at horder
    exact (List.pairwise_append.mp horder).2.1
  · intro x hx
    obtain ⟨a, ha, hle, hxa⟩ := hs.stack_active x hx
    refine ⟨a, ha, ?_, hxa⟩
    have hxi := hindex x hx
    have hai := hindex a (hs.active_stack a ha)
    unfold index at hxi hai hle ⊢
    dsimp only at *
    omega
  · exact fun x hx hxa y hy => h.finished hx hxa hy
  · rw [List.length_append, List.length_singleton]
    refine h.consistent.numbered.append (by simp) ?_ ?_ hclosed
    · intro x hx n hn
      exact (h.consistent.numbered_entered x n hn).2 ((hmem x).mpr (Or.inl hx))
    · intro x hx y hy
      exact (hmutual x hx).symm.trans (hmutual y hy)

/-- All references of the model keep the invariant if each search at a model that was not entered
does. -/
theorem foldl (hs : s.Consistent next order active) (hfresh : node ∉ s.entered)
    {search : Survey → String → Return} {targets : List String}
    (htargets : ∀ target ∈ targets, target ∈ next node)
    (hsearch : ∀ r done, Following next order s active node done r → ∀ target ∈ next node,
      target ∉ r.survey.entered →
        Connected next order r.survey (node :: active) target (search r.survey target))
    (h : Following next order s active node done r) :
    Following next order s active node (done ++ targets)
      (targets.foldl (Return.follow search) r) := by
  induction targets generalizing done r with
  | nil => simpa using h
  | cons target targets ih =>
    have htarget := htargets target List.mem_cons_self
    have hstep := h.follow hs hfresh htarget (hsearch r done h target htarget)
    rw [List.foldl_cons, List.append_cons]
    exact ih (fun t ht => htargets t (List.mem_cons_of_mem target ht)) hstep

end Following

/-- The search continued at a model keeps the invariant, if the fuel is as long as the list of models
that are not entered yet. -/
theorem connect_connected (hclosed : ∀ u, ∀ v ∈ next u, v ∈ order) (fuel : Nat) {s : Survey}
    {active : List String} (hs : s.Consistent next order active) {node : String}
    (hfresh : node ∉ s.entered) (hnode : node ∈ order) (hactive : ∀ a ∈ active, Reaches next a node)
    (hfuel : order.length ≤ fuel + s.entered.length) :
    Connected next order s active node (connect next fuel s node) := by
  have hstart := Following.start hs hfresh hnode hactive
  have hlength := length_le_of_nodup hstart.consistent.nodup hstart.consistent.subset
  simp only [enter, List.length_append, List.length_singleton] at hlength
  induction fuel generalizing s active node with
  | zero => omega
  | succ fuel ih =>
    have hrun : Following next order s active node ([] ++ next node)
        ((next node).foldl (Return.follow (connect next fuel))
          { survey := s.enter node, low := s.entered.length }) := by
      refine hstart.foldl hs hfresh (fun _ ht => ht) ?_
      intro r done h target htarget hnew
      have hgrown := h.grown.length_le
      simp only [enter, List.length_append, List.length_singleton] at hgrown
      have hreach : ∀ a ∈ node :: active, Reaches next a target := by
        intro a ha
        rcases List.mem_cons.mp ha with rfl | ha
        · exact .single htarget
        · exact (hactive a ha).tail htarget
      have hstart' := Following.start h.consistent hnew (hclosed node target htarget) hreach
      have hlength' := length_le_of_nodup hstart'.consistent.nodup hstart'.consistent.subset
      simp only [enter, List.length_append, List.length_singleton] at hlength'
      exact ih h.consistent hnew (hclosed node target htarget) hreach (by omega) hstart' hlength'
    rw [List.nil_append] at hrun
    rw [connect]
    simp only [beq_iff_eq]
    split_ifs with hlow
    · exact hrun.complete hs hlow
    · exact hrun.leave hs hfresh hlow

/-! ## The whole search -/

/-- The searches from the models of a list, one after the other, enter them all. -/
theorem foldl_consistent (hclosed : ∀ u, ∀ v ∈ next u, v ∈ order) {nodes : List String}
    (hnodes : ∀ node ∈ nodes, node ∈ order) {s : Survey} (hs : s.Consistent next order []) :
    let t := nodes.foldl (fun s node =>
      if s.entered.contains node then s else (connect next order.length s node).survey) s
    t.Consistent next order [] ∧ (∀ x ∈ s.entered, x ∈ t.entered) ∧ ∀ x ∈ nodes, x ∈ t.entered := by
  induction nodes generalizing s with
  | nil => exact ⟨hs, fun _ hx => hx, by simp⟩
  | cons node nodes ih =>
    have hrest : ∀ x ∈ nodes, x ∈ order := fun x hx => hnodes x (List.mem_cons_of_mem node hx)
    rw [List.foldl_cons]
    by_cases hnode : node ∈ s.entered
    · rw [if_pos (List.contains_iff_mem.mpr hnode)]
      obtain ⟨ht, hkeep, hall⟩ := ih hrest hs
      refine ⟨ht, hkeep, ?_⟩
      intro x hx
      rcases List.mem_cons.mp hx with rfl | hx
      · exact hkeep x hnode
      · exact hall x hx
    · rw [if_neg (by simpa using hnode)]
      have hnew := connect_connected hclosed order.length hs hnode (hnodes node List.mem_cons_self)
        (by simp) (by omega)
      obtain ⟨ht, hkeep, hall⟩ := ih hrest hnew.consistent
      refine ⟨ht, fun x hx => hkeep x (hnew.grown.subset hx), ?_⟩
      intro x hx
      rcases List.mem_cons.mp hx with rfl | hx
      · exact hkeep x hnew.node_entered
      · exact hall x hx

theorem survey_consistent (hclosed : ∀ u, ∀ v ∈ next u, v ∈ order) :
    (survey next order).Consistent next order [] ∧ ∀ x ∈ order, x ∈ (survey next order).entered := by
  obtain ⟨hs, _, hall⟩ := foldl_consistent hclosed (fun _ hx => hx) Consistent.empty
  exact ⟨hs, hall⟩

theorem lookup_eq_some_iff (hclosed : ∀ u, ∀ v ∈ next u, v ∈ order) {u : String} {n : Nat} :
    (survey next order).numbers.lookup u = some n ↔ (u, n) ∈ (survey next order).numbers :=
  (survey_consistent hclosed).1.numbered.lookup_eq_some_iff

/-- In the end exactly the models have numbers. -/
theorem exists_lookup_iff (hclosed : ∀ u, ∀ v ∈ next u, v ∈ order) (u : String) :
    (∃ n, (survey next order).numbers.lookup u = some n) ↔ u ∈ order := by
  obtain ⟨hs, hall⟩ := survey_consistent hclosed
  simp only [lookup_eq_some_iff hclosed]
  constructor
  · rintro ⟨n, hn⟩
    exact hs.subset u (hs.numbered_entered u n hn).1
  · intro hu
    rcases hs.placed u (hall u hu) with hstack | hnumber
    · obtain ⟨a, ha, _⟩ := hs.stack_active u hstack
      cases ha
    · exact hnumber

theorem lookup_eq_lookup_iff (hclosed : ∀ u, ∀ v ∈ next u, v ∈ order) {u v : String}
    (hu : u ∈ order) (hv : v ∈ order) :
    (survey next order).numbers.lookup u = (survey next order).numbers.lookup v ↔
      Mutual next u v := by
  obtain ⟨hs, _⟩ := survey_consistent hclosed
  obtain ⟨m, hm⟩ := (exists_lookup_iff hclosed u).mpr hu
  obtain ⟨n, hn⟩ := (exists_lookup_iff hclosed v).mpr hv
  rw [hm, hn, Option.some_inj]
  exact hs.numbered.eq_iff u m v n ((lookup_eq_some_iff hclosed).mp hm)
    ((lookup_eq_some_iff hclosed).mp hn)

theorem getD_lookup_eq_iff (hclosed : ∀ u, ∀ v ∈ next u, v ∈ order) {u v : String}
    (hu : u ∈ order) (hv : v ∈ order) :
    ((survey next order).numbers.lookup u).getD 0 = ((survey next order).numbers.lookup v).getD 0 ↔
      Mutual next u v := by
  rw [← lookup_eq_lookup_iff hclosed hu hv]
  obtain ⟨m, hm⟩ := (exists_lookup_iff hclosed u).mpr hu
  obtain ⟨n, hn⟩ := (exists_lookup_iff hclosed v).mpr hv
  rw [hm, hn, Option.getD_some, Option.getD_some, Option.some_inj]

/-- The numbers in use are those below the number of components that were completed. -/
theorem exists_lookup_eq_some_iff (hclosed : ∀ u, ∀ v ∈ next u, v ∈ order) (n : Nat) :
    (∃ u, (survey next order).numbers.lookup u = some n) ↔ n < (survey next order).roots.length := by
  obtain ⟨hs, _⟩ := survey_consistent hclosed
  simp only [lookup_eq_some_iff hclosed]
  exact ⟨fun ⟨u, hu⟩ => hs.numbered.lt u n hu, hs.numbered.used n⟩

theorem lookup_image (hclosed : ∀ u, ∀ v ∈ next u, v ∈ order) :
    (fun u => (survey next order).numbers.lookup u) '' {u | u ∈ order} =
      some '' Set.Iio (survey next order).roots.length := by
  ext o
  constructor
  · rintro ⟨u, hu, rfl⟩
    obtain ⟨n, hn⟩ := (exists_lookup_iff hclosed u).mpr hu
    exact ⟨n, (exists_lookup_eq_some_iff hclosed n).mp ⟨u, hn⟩, hn.symm⟩
  · rintro ⟨n, hn, rfl⟩
    obtain ⟨u, hu⟩ := (exists_lookup_eq_some_iff hclosed n).mpr hn
    exact ⟨u, (exists_lookup_iff hclosed u).mp ⟨n, hu⟩, hu⟩

/-! ## The components -/

/-- The models that reach a model and are reached from it. -/
def Graph.component (g : Graph) (u : String) : Set String :=
  {v | Mutual g.references u v}

/-- The components of the models. -/
def Graph.components (g : Graph) : Set (Set String) :=
  g.component '' {u | u ∈ g.order}

theorem Graph.component_eq_iff (g : Graph) (u v : String) :
    g.component u = g.component v ↔ Mutual g.references u v := by
  constructor
  · intro h
    have hv : v ∈ g.component v := Mutual.refl v
    rw [← h] at hv
    exact hv
  · intro h
    ext w
    exact ⟨fun hw => h.symm.trans hw, fun hw => h.trans hw⟩

/-- Two functions that tell the same members of a set apart have as many values on it. -/
theorem ncard_image_eq {α β γ : Type*} {S : Set α} {f : α → β} {g : α → γ}
    (h : ∀ x ∈ S, ∀ y ∈ S, f x = f y ↔ g x = g y) : (f '' S).ncard = (g '' S).ncard := by
  refine Set.ncard_congr (fun b hb => g hb.choose) ?_ ?_ ?_
  · intro b hb
    exact ⟨hb.choose, hb.choose_spec.1, rfl⟩
  · intro b c hb hc he
    rw [← hb.choose_spec.2, ← hc.choose_spec.2]
    exact (h _ hb.choose_spec.1 _ hc.choose_spec.1).mpr he
  · rintro c ⟨x, hx, rfl⟩
    have hb : ∃ a, a ∈ S ∧ f a = f x := ⟨x, hx, rfl⟩
    exact ⟨f x, hb, (h _ hb.choose_spec.1 x hx).mp hb.choose_spec.2⟩

/-- Each component is completed once. -/
theorem Graph.ncard_components {g : Graph} (hclosed : ∀ u, ∀ v ∈ g.references u, v ∈ g.order) :
    g.components.ncard = (survey g.references g.order).roots.length := by
  have hsame : ∀ u ∈ {u | u ∈ g.order}, ∀ v ∈ {u | u ∈ g.order},
      g.component u = g.component v ↔
        g.componentNumbers.lookup u = g.componentNumbers.lookup v := fun u hu v hv =>
    (g.component_eq_iff u v).trans (lookup_eq_lookup_iff hclosed hu hv).symm
  calc g.components.ncard
      = ((fun u => g.componentNumbers.lookup u) '' {u | u ∈ g.order}).ncard := ncard_image_eq hsame
    _ = (some '' Set.Iio (survey g.references g.order).roots.length).ncard := by
        rw [← lookup_image hclosed, Graph.componentNumbers]
    _ = (Set.Iio (survey g.references g.order).roots.length).ncard :=
        Set.ncard_image_of_injective _ (Option.some_injective ℕ)
    _ = (survey g.references g.order).roots.length := by
        rw [← Finset.coe_Iio, Set.ncard_coe_finset, Nat.card_Iio]

/-- The numbers of components: every model of the batch has one, and nothing else has; two models have
the same one exactly if each reaches the other; the numbers are those below the number of components,
and no reference leads from a model to one with a higher number. -/
theorem componentNumbers_spec (models : List Model) :
    let g := Graph.ofModels models
    let names := models.map (·.name)
    let number := fun node => g.componentNumbers.lookup node
    (∀ u, (∃ n, number u = some n) ↔ u ∈ names) ∧
    (∀ u ∈ names, ∀ v ∈ names,
      number u = number v ↔ Reaches g.references u v ∧ Reaches g.references v u) ∧
    {n | ∃ u, number u = some n} = Set.Iio g.components.ncard ∧
    ∀ u, ∀ v ∈ g.references u, ∃ m n, number u = some m ∧ number v = some n ∧ n ≤ m := by
  intro g names number
  have hnames : names = g.order := (Graph.order_ofModels models).symm
  have hclosed : ∀ u, ∀ v ∈ g.references u, v ∈ g.order := Graph.references_mem_order models
  have hsome : ∀ u, (∃ n, number u = some n) ↔ u ∈ g.order := exists_lookup_iff hclosed
  rw [hnames]
  refine ⟨hsome, fun u hu v hv => lookup_eq_lookup_iff hclosed hu hv, ?_, ?_⟩
  · ext n
    rw [Graph.ncard_components hclosed, Set.mem_Iio]
    exact exists_lookup_eq_some_iff hclosed n
  · intro u v hv
    obtain ⟨hs, _⟩ := survey_consistent hclosed
    obtain ⟨m, hm⟩ := (hsome u).mpr (Graph.mem_order_of_references hv)
    obtain ⟨n, hnm, hn⟩ := hs.numbered.closed u m ((lookup_eq_some_iff hclosed).mp hm) v hv
    exact ⟨m, n, hm, (lookup_eq_some_iff hclosed).mpr hn, hnm⟩

example :
    (Graph.ofMentions [("A", ["B"]), ("B", ["A", "C"]), ("C", [])]).componentNumbers =
      [("C", 0), ("B", 1), ("A", 1)] := by
  cbv

end SchemaTypes.References
