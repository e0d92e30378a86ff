import SchemaTypes.Proofs.References.Rotation

/-!
# The search of all paths

The plain search for cycles follows every simple path from every model, with no regard to components.
What it notes is decided by the cycles that its paths close, in the order in which they do: the list
of these cycles, with repetitions, does not depend on what was noted before.

Results:
* `plainExplore_eq_foldl`: the plain search notes the cycles that its paths close.
* `closures_sound`: a path closes simple cycles only, and only such as its end leads to.
* `closures_exhaustive`: the paths from a model close all simple cycles that it leads to.
* `closures_fuel`: fuel beyond the number of models changes nothing.
-/

namespace SchemaTypes.References

variable {next : String → List String} {order : List String}

/-! ## The search -/

/-- The plain search continued at the end of a path. `path` holds the models before; the fuel bounds
the length of a path. -/
def plainExplore (next : String → List String) :
    (fuel : ℕ) → (path : List String) → (node : String) → List (List String) → List (List String)
  | 0, _, _, found => found
  | fuel + 1, path, node, found =>
    (next node).foldl (fun found target =>
      if cycleLimit ≤ found.length ∨ target = node then found
      else if target ∈ path ++ [node] then note found (closedCycle (path ++ [node]) target)
      else plainExplore next fuel (path ++ [node]) target found) found

/-- The cycles that the plain search finds from every model, in order. -/
def Graph.plainCycles (g : Graph) (fuel : ℕ) : List (List String) :=
  g.order.foldl (fun found start => plainExplore g.references fuel [] start found) []

/-- The cycles that are closed by paths through a reference at the end of a trail. `closures` are
those that are closed by paths beyond its target. -/
def closuresVia (closures : (path : List String) → String → List (List String))
    (trail : List String) (node target : String) : List (List String) :=
  if target = node then []
  else if target ∈ trail then [closedCycle trail target]
  else closures trail target

/-- The cycles that the paths beyond `path` and `node` close, in the order of the search. -/
def closures (next : String → List String) :
    (fuel : ℕ) → (path : List String) → (node : String) → List (List String)
  | 0, _, _ => []
  | fuel + 1, path, node =>
    (next node).flatMap (closuresVia (closures next fuel) (path ++ [node]) node)

section Via

variable {closures : List String → String → List (List String)} {trail : List String}
variable {node target : String}

theorem closuresVia_self : closuresVia closures trail node node = [] :=
  if_pos rfl

theorem closuresVia_back (hself : target ≠ node) (hmem : target ∈ trail) :
    closuresVia closures trail node target = [closedCycle trail target] := by
  rw [closuresVia, if_neg hself, if_pos hmem]

theorem closuresVia_on (hself : target ≠ node) (hmem : target ∉ trail) :
    closuresVia closures trail node target = closures trail target := by
  rw [closuresVia, if_neg hself, if_neg hmem]

end Via

theorem plainExplore_eq_foldl (fuel : ℕ) (path : List String) (node : String)
    (found : List (List String)) :
    plainExplore next fuel path node found = (closures next fuel path node).foldl note found := by
  induction fuel generalizing path node found with
  | zero => rfl
  | succ fuel ih =>
    rw [plainExplore, closures, List.foldl_flatMap]
    congr 1
    funext found target
    by_cases hfull : cycleLimit ≤ found.length
    · rw [if_pos (Or.inl hfull)]
      exact (foldl_note_of_covers (Or.inl hfull)).symm
    · by_cases hself : target = node
      · rw [if_pos (Or.inr hself), hself, closuresVia_self]
        rfl
      · rw [if_neg (by simp [hfull, hself])]
        by_cases hmem : target ∈ path ++ [node]
        · rw [if_pos hmem, closuresVia_back hself hmem]
          rfl
        · rw [if_neg hmem, closuresVia_on hself hmem]
          exact ih (path ++ [node]) target found

theorem Graph.plainCycles_eq_foldl (g : Graph) (fuel : ℕ) :
    g.plainCycles fuel = (g.order.flatMap (closures g.references fuel [])).foldl note [] := by
  rw [Graph.plainCycles, List.foldl_flatMap]
  simp only [plainExplore_eq_foldl]

/-! ## Soundness -/

/-- A list that leads along references from a model through others, each met once, back to it. -/
def IsClosed (next : String → List String) (cycle : List String) : Prop :=
  ∃ first rest, cycle = first :: rest ++ [first] ∧ rest ≠ [] ∧ (first :: rest).Nodup ∧
    IsPath next cycle

theorem ring_cons_append (first : String) (rest : List String) :
    ring (first :: rest ++ [first]) = (first :: rest : List String) := by
  rw [ring, List.dropLast_concat]

theorem IsClosed.ring_mem {cycle : List String} (h : IsClosed next cycle) :
    ring cycle ∈ simpleCycles next := by
  obtain ⟨first, rest, rfl, hrest, hnodup, hpath⟩ := h
  rw [ring_cons_append, mem_simpleCycles_iff]
  exact ⟨hrest, hnodup, hpath⟩

theorem IsClosed.nodup {cycle : List String} (h : IsClosed next cycle) : cycle.dropLast.Nodup := by
  obtain ⟨first, rest, rfl, _, hnodup, _⟩ := h
  rw [List.dropLast_concat]
  exact hnodup

theorem closedCycle_cut {front back : List String} {target : String} (h : target ∉ front) :
    closedCycle (front ++ target :: back) target = target :: back ++ [target] := by
  rw [closedCycle, dropWhile_cut h]

theorem closedCycle_append {outer path : List String} {target : String} (h : target ∉ outer) :
    closedCycle (outer ++ path) target = closedCycle path target := by
  rw [closedCycle, closedCycle, List.dropWhile_append_of_pos]
  intro x hx
  simp only [bne_iff_ne, ne_eq]
  rintro rfl
  exact h hx

/-- A trail whose end refers back to one of its models closes a cycle at that model. -/
theorem closedCycle_isClosed {path : List String} {node target : String}
    (h : IsTrail next order (path ++ [node])) (htarget : target ∈ next node) (hne : target ≠ node)
    (hmem : target ∈ path ++ [node]) :
    IsClosed next (closedCycle (path ++ [node]) target) ∧
      target ∈ ring (closedCycle (path ++ [node]) target) := by
  have hmem' : target ∈ path := by simpa [hne] using hmem
  obtain ⟨front, back, rfl⟩ := List.append_of_mem hmem'
  obtain ⟨hpath, hnodup, _⟩ := h
  rw [List.append_assoc, List.cons_append] at hpath hnodup ⊢
  have hfront : target ∉ front := fun h => hnodup.disjoint h List.mem_cons_self
  have hback : IsPath next (target :: back ++ [node]) := hpath.right_of_append
  rw [closedCycle_cut hfront]
  refine ⟨⟨target, back ++ [node], rfl, by simp, hnodup.of_append_right, ?_⟩, ?_⟩
  · exact hback.concat htarget
  · rw [ring_cons_append, Cycle.mem_coe_iff]
    exact List.mem_cons_self

theorem closures_sound (hclosed : ∀ u, ∀ v ∈ next u, v ∈ order) {fuel : ℕ} {path : List String}
    {node : String} {cycle : List String} (htrail : IsTrail next order (path ++ [node]))
    (h : cycle ∈ closures next fuel path node) :
    IsClosed next cycle ∧ ∃ x ∈ ring cycle, Reaches next node x := by
  induction fuel generalizing path node with
  | zero => cases h
  | succ fuel ih =>
    obtain ⟨target, hstep, h⟩ := List.mem_flatMap.mp h
    rw [closuresVia] at h
    split_ifs at h with hself hmem
    · cases h
    · rw [List.mem_singleton.mp h]
      obtain ⟨hcycle, hx⟩ := closedCycle_isClosed htrail hstep hself hmem
      exact ⟨hcycle, target, hx, .single hstep⟩
    · obtain ⟨hcycle, x, hx, hreach⟩ :=
        ih (htrail.concat hstep (hclosed node target hstep) hmem) h
      exact ⟨hcycle, x, hx, .head hstep hreach⟩

/-! ## Completeness -/

/-- The search follows every simple path, and closes a cycle at its end. -/
theorem closures_complete {fuel : ℕ} {path rest : List String} {node target : String}
    (hpath : IsPath next (node :: rest ++ [target])) (hnodup : (path ++ node :: rest).Nodup)
    (hmem : target ∈ path ++ (node :: rest).dropLast) (hfuel : rest.length < fuel) :
    closedCycle (path ++ node :: rest) target ∈ closures next fuel path node := by
  induction rest generalizing fuel path node with
  | nil =>
    obtain ⟨fuel, rfl⟩ := Nat.exists_eq_add_one_of_ne_zero (Nat.ne_zero_of_lt hfuel)
    rw [List.dropLast_singleton, List.append_nil] at hmem
    have hne : target ≠ node := by
      rintro rfl
      exact hnodup.disjoint hmem List.mem_cons_self
    rw [closures, List.mem_flatMap]
    refine ⟨target, (isPath_cons.mp hpath).1 target rfl, ?_⟩
    rw [closuresVia_back hne (List.mem_append_left _ hmem)]
    exact List.mem_singleton_self _
  | cons second rest ih =>
    obtain ⟨fuel, rfl⟩ := Nat.exists_eq_add_one_of_ne_zero (Nat.ne_zero_of_lt hfuel)
    obtain ⟨hstep, hrest⟩ := isPath_cons.mp hpath
    rw [List.append_cons] at hnodup ⊢
    have hsecond : second ∉ path ++ [node] := fun h => hnodup.disjoint h List.mem_cons_self
    have hne : second ≠ node := by
      rintro rfl
      exact hsecond (by simp)
    rw [closures, List.mem_flatMap]
    refine ⟨second, hstep second rfl, ?_⟩
    rw [closuresVia_on hne hsecond]
    refine ih hrest hnodup ?_ (by simpa using hfuel)
    rw [List.dropLast_cons_cons] at hmem
    rw [List.append_assoc]
    exact hmem

/-- The simple cycles to which a model leads. -/
def cyclesFrom (next : String → List String) (node : String) : Set (Cycle String) :=
  {c | c ∈ simpleCycles next ∧ ∃ x ∈ c, Reaches next node x}

theorem cyclesFrom_subset {u v : String} (h : Reaches next u v) :
    cyclesFrom next v ⊆ cyclesFrom next u := by
  rintro c ⟨hc, x, hx, hvx⟩
  exact ⟨hc, x, hx, h.trans hvx⟩

/-- A cycle written from one of its members on. -/
theorem exists_coe_cons {c : Cycle String} {x : String} (hx : x ∈ c) :
    ∃ rest : List String, c = (x :: rest : List String) := by
  induction c using Quotient.inductionOn' with
  | _ nodes =>
    rw [Cycle.mk''_eq_coe, Cycle.mem_coe_iff] at hx
    obtain ⟨front, back, rfl⟩ := List.append_of_mem hx
    refine ⟨back ++ front, ?_⟩
    rw [Cycle.mk''_eq_coe, Cycle.coe_eq_coe]
    exact List.isRotated_append

/-- The paths from a model close all simple cycles to which it leads. The models before it, which it
does not lead to, do not matter. -/
theorem closures_exhaustive (hclosed : ∀ u, ∀ v ∈ next u, v ∈ order) {fuel : ℕ} {path : List String}
    {node : String} (hnodup : path.Nodup) (hpath : ∀ x ∈ path, x ∈ order ∧ ¬ Reaches next node x)
    (hnode : node ∈ order) (hfuel : order.length ≤ fuel + path.length) :
    cyclesFrom next node ⊆ rings (closures next fuel path node) := by
  rintro c ⟨hc, x, hx, hreach⟩
  obtain ⟨front, y, hhead, hfront, hfrontnd, hy, hfree⟩ :=
    exists_simple_path (S := fun z => z ∈ c) hreach hx
  obtain ⟨back, rfl⟩ := exists_coe_cons hy
  obtain ⟨hback, hbacknd, hbackpath⟩ := mem_simpleCycles_iff.mp hc
  -- The path to the cycle and once round it is simple, and its end refers back to where it met it.
  have hhead' : (front ++ y :: back).head? = some node := by
    rw [← hhead]
    cases front <;> rfl
  obtain ⟨rest, hrest⟩ := List.head?_eq_some_iff.mp hhead'
  have hround : IsPath next (node :: rest ++ [y]) := by
    have hjoin : IsPath next (front ++ [y] ++ (back ++ [y])) :=
      List.IsChain.append_overlap hfront hbackpath (by simp)
    rw [← hrest]
    simpa using hjoin
  have hreached : ∀ z ∈ node :: rest, Reaches next node z := fun z hz =>
    hround.first_reaches z (List.mem_append_left _ hz)
  have hsimple : (node :: rest).Nodup := by
    rw [← hrest]
    refine hfrontnd.of_append_left.append hbacknd ?_
    intro z hz hz'
    exact hfree z hz (Cycle.mem_coe_iff.mpr hz')
  have hall : (path ++ node :: rest).Nodup := by
    refine hnodup.append hsimple ?_
    intro z hz hz'
    exact (hpath z hz).2 (hreached z hz')
  have hlength : (path ++ node :: rest).length ≤ order.length := by
    refine length_le_of_nodup hall ?_
    intro z hz
    rcases List.mem_append.mp hz with hz | hz
    · exact (hpath z hz).1
    · exact (hreached z hz).mem_of_closed (fun u _ v hv => hclosed u v hv) hnode
  rw [List.length_append, List.length_cons] at hlength
  have hmeet : y ∈ path ++ (node :: rest).dropLast := by
    rw [← hrest, List.dropLast_append_of_ne_nil (by simp), List.dropLast_cons_of_ne_nil hback]
    simp
  have hnew : y ∉ path ++ front := by
    intro h
    rcases List.mem_append.mp h with h | h
    · exact (hpath y h).2 (hreached y (by simp [← hrest]))
    · exact hfree y h hy
  refine ⟨_, closures_complete hround hall hmeet (by omega), ?_⟩
  rw [← hrest, ← List.append_assoc, closedCycle_cut hnew, ring_cons_append]

/-- Fuel beyond the number of models that are not on the path changes nothing. -/
theorem closures_fuel (hclosed : ∀ u, ∀ v ∈ next u, v ∈ order) {fuel more : ℕ} {path : List String}
    {node : String} (htrail : IsTrail next order (path ++ [node]))
    (hfuel : order.length ≤ fuel + path.length) (hmore : fuel ≤ more) :
    closures next more path node = closures next fuel path node := by
  have hlength := htrail.length_lt
  induction fuel generalizing more path node with
  | zero => omega
  | succ fuel ih =>
    obtain ⟨more, rfl⟩ := Nat.exists_eq_add_one_of_ne_zero (by omega : more ≠ 0)
    rw [closures, closures]
    refine List.flatMap_congr ?_
    intro target hstep
    rw [closuresVia, closuresVia]
    split_ifs with hself hmem
    · rfl
    · rfl
    · have htrail' := htrail.concat hstep (hclosed node target hstep) hmem
      refine ih htrail' ?_ (by omega) htrail'.length_lt
      rw [List.length_append, List.length_singleton]
      omega

end SchemaTypes.References
