import Mathlib.Data.ENat.Lattice
import Mathlib.Data.Set.Card
import SchemaTypes.Proofs.References.Component
import SchemaTypes.Proofs.References.PlainSearch

/-!
# The cycles of the reference graph

The search for cycles drops a path when it leaves its component, and searches each component once,
from the model at which it is entered first. It finds what the plain search of all paths finds: a path
never comes back to a component that it left, so a plain search that leaves a component continues
as if it started anew; and when a component is entered again, all cycles to which its models lead were
met before.

Results:
* `explore_advances`, `enter_advances`: the search continued at a model notes the cycles that all paths
  from there close.
* `cycles_eq_plainCycles`: the search by components and the plain search report the same.
* `cycles_sound`, `cycles_complete`: what is reported are the simple cycles, each once up to rotation.
-/

namespace SchemaTypes.References

variable {next : String → List String} {order : List String} {number : String → ℕ}

/-! ## Progress of the search -/

/-- The search `t` continues `s` and notes `met`. Every component that it searched was searched before,
or nothing is left to note of the cycles to which its models lead. -/
structure Advances (next : String → List String) (order : List String) (number : String → ℕ)
    (s : Search) (met : List (List String)) (t : Search) : Prop where
  cycles : t.cycles = met.foldl note s.cycles
  searched : ∀ u ∈ order, number u ∈ t.searched →
    number u ∈ s.searched ∨ Covers t.cycles (cyclesFrom next u)

namespace Advances

variable {s t v : Search} {met more : List (List String)}

theorem of_covers (h : Covers s.cycles (rings met)) : Advances next order number s met s where
  cycles := (foldl_note_of_covers h).symm
  searched := fun _ _ hu => Or.inl hu

theorem nil : Advances next order number s [] s where
  cycles := rfl
  searched := fun _ _ hu => Or.inl hu

theorem grows (h : Advances next order number s met t) : s.cycles <+: t.cycles := by
  rw [h.cycles]
  exact found_grows

theorem trans (h : Advances next order number s met t) (h' : Advances next order number t more v) :
    Advances next order number s (met ++ more) v where
  cycles := by rw [h'.cycles, h.cycles, List.foldl_append]
  searched := by
    intro u hu hv
    rcases h'.searched u hu hv with ht | hcovers
    · rcases h.searched u hu ht with hs | hcovers
      · exact Or.inl hs
      · exact Or.inr (hcovers.mono h'.grows)
    · exact Or.inr hcovers

/-- Steps one after the other, each of which keeps what the next one needs. -/
theorem foldl {α : Type*} {P : Search → Prop} {f : Search → α → Search}
    {g : α → List (List String)} (hP : ∀ s met t, P s → Advances next order number s met t → P t)
    {xs : List α} (hstep : ∀ s, P s → ∀ x ∈ xs, Advances next order number s (g x) (f s x))
    (hs : P s) : Advances next order number s (xs.flatMap g) (xs.foldl f s) := by
  induction xs generalizing s with
  | nil => exact nil
  | cons x xs ih =>
    have hx := hstep s hs x List.mem_cons_self
    rw [List.foldl_cons, List.flatMap_cons]
    exact hx.trans (ih (fun s hs y hy => hstep s hs y (List.mem_cons_of_mem x hy))
      (hP s (g x) (f s x) hs hx))

end Advances

/-- Before a model is searched: of the other components that it leads to, those that were searched
have nothing left to note. -/
def Ready (next : String → List String) (number : String → ℕ) (s : Search) (node : String) : Prop :=
  ∀ u, Reaches next node u → number u ≠ number node → number u ∈ s.searched →
    Covers s.cycles (cyclesFrom next u)

/-- Between searches: the components that were searched have nothing left to note. -/
def Settled (next : String → List String) (order : List String) (number : String → ℕ) (s : Search) :
    Prop :=
  ∀ u ∈ order, number u ∈ s.searched → Covers s.cycles (cyclesFrom next u)

theorem Settled.advance {s t : Search} {met : List (List String)}
    (h : Settled next order number s) (ht : Advances next order number s met t) :
    Settled next order number t := by
  intro u hu hut
  rcases ht.searched u hu hut with hus | hcovers
  · exact (h u hu hus).mono ht.grows
  · exact hcovers

section Search

variable (hclosed : ∀ u, ∀ v ∈ next u, v ∈ order)
variable (hnumber : ∀ u ∈ order, ∀ v ∈ order, number u = number v ↔ Mutual next u v)

include hclosed in
theorem Reaches.mem_order {u v : String} (h : Reaches next u v) (hu : u ∈ order) : v ∈ order :=
  h.mem_of_closed (fun u _ v hv => hclosed u v hv) hu

include hclosed in
theorem Ready.advance {s t : Search} {met : List (List String)} {node : String}
    (h : Ready next number s node) (hnode : node ∈ order)
    (ht : Advances next order number s met t) : Ready next number t node := by
  intro u hu hne hut
  rcases ht.searched u (hu.mem_order hclosed hnode) hut with hus | hcovers
  · exact (h u hu hne hus).mono ht.grows
  · exact hcovers

/-- What has to be shown of the search continued at the end of a path, when the paths of the plain
search have the models of `outer` before it. -/
def Explores (next : String → List String) (order : List String) (number : String → ℕ) (fuel : ℕ) :
    Prop :=
  ∀ (outer path : List String) (node : String) (s : Search),
    IsTrail next order (outer ++ path ++ [node]) →
    (∀ x ∈ outer, number x ≠ number node) →
    order.length ≤ fuel + (outer ++ path).length →
    Ready next number s node →
    Advances next order number s (closures next fuel (outer ++ path) node)
      (explore next number fuel path node s)

include hclosed hnumber in
/-- A component is entered at a model that does not lead back to the models before it. -/
theorem enter_advances {fuel : ℕ} (hexplore : Explores next order number fuel) {outer : List String}
    {node : String} {s : Search} (htrail : IsTrail next order (outer ++ [node]))
    (houter : ∀ x ∈ outer, ¬ Reaches next node x) (hfuel : order.length ≤ fuel + outer.length)
    (hready : ∀ u, Reaches next node u → number u ∈ s.searched →
      Covers s.cycles (cyclesFrom next u)) :
    Advances next order number s (closures next fuel outer node)
      (s.enter number (explore next number fuel) node) := by
  have hnode := htrail.last_mem
  have hsub : ∀ x ∈ outer, x ∈ order := fun x hx => htrail.subset x (List.mem_append_left _ hx)
  by_cases hs : number node ∈ s.searched
  · rw [Search.enter_searched hs]
    refine .of_covers ((hready node .refl hs).subset ?_)
    rintro c ⟨cycle, hcycle, rfl⟩
    obtain ⟨hring, hx⟩ := closures_sound hclosed htrail hcycle
    exact ⟨hring.ring_mem, hx⟩
  · rw [Search.enter_new hs]
    have hne : ∀ x ∈ outer, number x ≠ number node := by
      intro x hx he
      exact houter x hx ((hnumber x (hsub x hx) node hnode).mp he).2
    have hready' : Ready next number { s with searched := number node :: s.searched } node := by
      intro u hu hun hmem
      rcases List.mem_cons.mp hmem with he | hmem
      · exact absurd he hun
      · exact hready u hu hmem
    have hrun := hexplore outer [] node { s with searched := number node :: s.searched }
    rw [List.append_nil] at hrun
    replace hrun := hrun htrail hne hfuel hready'
    refine { cycles := hrun.cycles, searched := ?_ }
    intro u hu hmem
    rcases hrun.searched u hu hmem with hmem | hcovers
    · rcases List.mem_cons.mp hmem with he | hmem
      · -- The component that was entered: the paths from `node` close all its cycles.
        have hmutual := (hnumber u hu node hnode).mp he
        have hall := closures_exhaustive hclosed htrail.nodup.of_append_left
          (fun x hx => ⟨hsub x hx, houter x hx⟩) hnode hfuel
        right
        rw [hrun.cycles]
        exact foldl_note_covers.subset ((cyclesFrom_subset hmutual.2).trans hall)
      · exact Or.inl hmem
    · exact Or.inr hcovers

include hnumber in
/-- A reference to another component is not led back from. -/
theorem not_reaches_back {node target x : String} (hnode : node ∈ order) (htarget : target ∈ order)
    (hstep : target ∈ next node) (hne : number target ≠ number node) (hx : Reaches next x node) :
    ¬ Reaches next target x := by
  intro h
  exact hne ((hnumber target htarget node hnode).mpr ⟨h.trans hx, .single hstep⟩)

include hclosed hnumber in
/-- A reference followed from the end of a path. -/
theorem follow_advances {fuel : ℕ} (hexplore : Explores next order number fuel)
    {outer path : List String} {node target : String} {s : Search}
    (htrail : IsTrail next order (outer ++ path ++ [node]))
    (houter : ∀ x ∈ outer, number x ≠ number node)
    (hfuel : order.length ≤ fuel + (outer ++ path ++ [node]).length)
    (hready : Ready next number s node) (hstep : target ∈ next node) :
    Advances next order number s
      (closuresVia (closures next fuel) (outer ++ path ++ [node]) node target)
      (s.follow number (explore next number fuel) (path ++ [node]) node target) := by
  have hnode := htrail.last_mem
  have htarget : target ∈ order := hclosed node target hstep
  by_cases hfull : s.isFull
  · rw [Search.follow_full hfull]
    exact .of_covers (Or.inl (by simpa [Search.isFull] using hfull))
  by_cases hself : target = node
  · rw [hself, Search.follow_self, closuresVia_self]
    exact .nil
  by_cases hne : number target = number node
  · -- Inside the component: the models of `outer` are in others.
    have hout : target ∉ outer := fun h => houter target h hne
    by_cases hmem : target ∈ path ++ [node]
    · have hmem' : target ∈ outer ++ path ++ [node] := by
        rw [List.append_assoc]
        exact List.mem_append_right _ hmem
      obtain ⟨hcycle, _⟩ := closedCycle_isClosed htrail hstep hself hmem'
      rw [Search.follow_back hfull hself hne hmem, closuresVia_back hself hmem']
      rw [List.append_assoc, closedCycle_append hout] at hcycle ⊢
      rw [record_eq_note (by simpa using hfull) hcycle.nodup]
      exact { cycles := rfl, searched := fun _ _ hu => Or.inl hu }
    · have hnew : target ∉ outer ++ path ++ [node] := by
        rw [List.append_assoc, List.mem_append, not_or]
        exact ⟨hout, hmem⟩
      rw [Search.follow_on hfull hself hne hmem, closuresVia_on hself hnew]
      have hrun := hexplore outer (path ++ [node]) target s
      rw [← List.append_assoc] at hrun
      refine hrun (htrail.concat hstep htarget hnew) (by rwa [hne]) hfuel ?_
      intro u hu hun hmem
      rw [hne] at hun
      exact hready u (.head hstep hu) hun hmem
  · -- Into another component, which does not lead back to the trail.
    have hback : ∀ x ∈ outer ++ path ++ [node], ¬ Reaches next target x := fun x hx =>
      not_reaches_back hnumber hnode htarget hstep hne (htrail.path.reaches_last x hx)
    have hnew : target ∉ outer ++ path ++ [node] := fun h => hback target h .refl
    rw [Search.follow_out hfull hne, closuresVia_on hself hnew]
    refine enter_advances hclosed hnumber hexplore (htrail.concat hstep htarget hnew) hback hfuel ?_
    intro u hu hmem
    refine hready u (.head hstep hu) ?_ hmem
    intro he
    have humem := hu.mem_order hclosed htarget
    exact not_reaches_back hnumber hnode htarget hstep hne
      ((hnumber u humem node hnode).mp he).1 hu

include hclosed hnumber in
/-- The search continued at a model notes the cycles that all paths from there close. -/
theorem explore_advances (fuel : ℕ) : Explores next order number fuel := by
  induction fuel with
  | zero =>
    intro outer path node s _ _ _ _
    exact .nil
  | succ fuel ih =>
    intro outer path node s htrail houter hfuel hready
    have hfuel' : order.length ≤ fuel + (outer ++ path ++ [node]).length := by
      rw [List.length_append, List.length_singleton]
      omega
    rw [explore, closures]
    split_ifs with hfull
    · exact .of_covers (Or.inl (by simpa [Search.isFull] using hfull))
    · exact .foldl (fun s met t hs ht => hs.advance hclosed htrail.last_mem ht)
        (fun s hs target hstep => follow_advances hclosed hnumber ih htrail houter hfuel' hs hstep)
        hready

include hclosed hnumber in
/-- The search for cycles from every model notes the cycles that all paths close. -/
theorem foldl_enter_advances {fuel : ℕ} (hfuel : order.length ≤ fuel) :
    Advances next order number {} (order.flatMap (closures next fuel []))
      (order.foldl (Search.enter number (explore next number fuel)) {}) := by
  refine Advances.foldl (P := Settled next order number) (fun s met t hs ht => hs.advance ht) ?_ ?_
  · intro s hs node hnode
    refine enter_advances hclosed hnumber (explore_advances hclosed hnumber fuel)
      (IsTrail.single hnode) (by simp) (by simpa using hfuel) ?_
    intro u hu hmem
    exact hs u (hu.mem_order hclosed hnode) hmem
  · intro u _ hu
    cases hu

end Search

/-! ## Batches -/

namespace Graph

/-- The search for cycles notes the cycles that all paths close. -/
theorem cycles_eq_foldl (models : List Model) {fuel : ℕ}
    (hfuel : (Graph.ofModels models).order.length ≤ fuel) :
    (Graph.ofModels models).cycles =
      ((Graph.ofModels models).order.flatMap
        (closures (Graph.ofModels models).references fuel [])).foldl note [] := by
  have hclosed := Graph.references_mem_order models
  have hrun := foldl_enter_advances hclosed
    (fun u hu v hv => getD_lookup_eq_iff hclosed hu hv) (Nat.le_succ _)
  refine hrun.cycles.trans ?_
  congr 1
  refine List.flatMap_congr ?_
  intro node hnode
  have htrail : IsTrail (Graph.ofModels models).references (Graph.ofModels models).order
      ([] ++ [node]) := .single hnode
  rw [closures_fuel hclosed htrail (by simp) hfuel,
    closures_fuel hclosed htrail (by simp) (Nat.le_succ _)]

theorem mem_cycles_isClosed {models : List Model} {cycle : List String}
    (h : cycle ∈ (Graph.ofModels models).cycles) :
    IsClosed (Graph.ofModels models).references cycle := by
  rw [cycles_eq_foldl models le_rfl] at h
  rcases mem_foldl_note h with h | h
  · cases h
  · obtain ⟨node, hnode, hcycle⟩ := List.mem_flatMap.mp h
    have htrail : IsTrail (Graph.ofModels models).references (Graph.ofModels models).order
        ([] ++ [node]) := .single hnode
    exact (closures_sound (Graph.references_mem_order models) htrail hcycle).1

theorem cycles_distinct (models : List Model) : Distinct (Graph.ofModels models).cycles := by
  rw [cycles_eq_foldl models le_rfl]
  exact foldl_note_distinct .nil

theorem cycles_covers (models : List Model) :
    Covers (Graph.ofModels models).cycles (simpleCycles (Graph.ofModels models).references) := by
  have hclosed := Graph.references_mem_order models
  rw [cycles_eq_foldl models le_rfl]
  refine foldl_note_covers.subset ?_
  intro c hc
  induction c using Quotient.inductionOn' with
  | _ nodes =>
    rw [Cycle.mk''_eq_coe] at hc ⊢
    obtain _ | ⟨first, _ | ⟨second, rest⟩⟩ := nodes
    · exact absurd hc.1 (by simp)
    · exact absurd hc.1 (by simp)
    · obtain ⟨_, _, hpath⟩ := mem_simpleCycles_iff.mp hc
      have hsecond := hclosed first second ((isPath_cons.mp hpath).1 second rfl)
      have hfrom : ((first :: second :: rest : List String) : Cycle String) ∈
          cyclesFrom (Graph.ofModels models).references second :=
        ⟨hc, second, by simp, .refl⟩
      obtain ⟨cycle, hcycle, hring⟩ := closures_exhaustive hclosed List.nodup_nil (by simp) hsecond
        (Nat.le_refl _) hfrom
      exact ⟨cycle, List.mem_flatMap.mpr ⟨second, hsecond, hcycle⟩, hring⟩

end Graph

/-! ## The cycles that are reported -/

theorem encard_rings {found : List (List String)} (h : Distinct found) :
    (rings found).encard = found.length := by
  have hset : rings found = ((found.map ring).toFinset : Set (Cycle String)) := by
    ext c
    simp [rings]
  rw [hset, Set.encard_coe_eq_coe_finsetCard, List.toFinset_card_of_nodup h.rings_nodup,
    List.length_map]

/-- The cycles that are reported are as many as there are simple cycles up to rotation, but no more
than 50; if they are fewer than 50, every simple cycle is a rotation of exactly one of them. -/
theorem cycles_complete (models : List Model) :
    let g := Graph.ofModels models
    (g.cycles.length : ℕ∞) = min 50 (simpleCycles g.references).encard ∧
    (g.cycles.length < 50 →
      ∀ c ∈ simpleCycles g.references, (g.cycles.map ring).count c = 1) := by
  intro g
  have hdistinct : Distinct g.cycles := Graph.cycles_distinct models
  have hsound : rings g.cycles ⊆ simpleCycles g.references := by
    rintro c ⟨cycle, hcycle, rfl⟩
    exact (Graph.mem_cycles_isClosed hcycle).ring_mem
  have hcount := encard_rings hdistinct
  have hle : g.cycles.length ≤ 50 := hdistinct.length_le
  rcases Graph.cycles_covers models with hfull | hall
  · have hlength : g.cycles.length = 50 := le_antisymm hle hfull
    refine ⟨?_, fun hlt => by omega⟩
    rw [hlength] at hcount ⊢
    have hmany : (50 : ℕ∞) ≤ (simpleCycles g.references).encard := by
      calc (50 : ℕ∞) = (rings g.cycles).encard := hcount.symm
        _ ≤ (simpleCycles g.references).encard := Set.encard_le_encard hsound
    rw [min_eq_left hmany]
    rfl
  · have hsame : simpleCycles g.references = rings g.cycles :=
      Set.Subset.antisymm hall hsound
    refine ⟨?_, ?_⟩
    · rw [hsame, hcount]
      exact (min_eq_right (by exact_mod_cast hle)).symm
    · intro _ c hc
      obtain ⟨cycle, hcycle, hring⟩ := hall c hc
      exact List.count_eq_one_of_mem hdistinct.rings_nodup
        (hring ▸ List.mem_map_of_mem hcycle)

/-- Each list that is reported leads from a model of the batch along references through at least one
other back to it and meets no other model twice; no two are rotations of each other, and there are at
most 50. -/
theorem cycles_sound (models : List Model) :
    let g := Graph.ofModels models
    (∀ cycle ∈ g.cycles, ∃ first rest, cycle = first :: rest ++ [first] ∧ rest ≠ [] ∧
      (first :: rest).Nodup ∧ (∀ node ∈ first :: rest, node ∈ models.map (·.name)) ∧
      cycle.IsChain fun u v => v ∈ g.references u) ∧
    g.cycles.Pairwise (fun a b => ¬ a.dropLast ~r b.dropLast) ∧
    g.cycles.length ≤ 50 := by
  intro g
  have hdistinct : Distinct g.cycles := Graph.cycles_distinct models
  refine ⟨?_, hdistinct.pairwise, hdistinct.length_le⟩
  intro cycle hcycle
  obtain ⟨first, rest, rfl, hrest, hnodup, hpath⟩ := Graph.mem_cycles_isClosed hcycle
  refine ⟨first, rest, rfl, hrest, hnodup, ?_, hpath⟩
  have hfirst : first ∈ g.order := by
    obtain ⟨second, rest, rfl⟩ := List.exists_cons_of_ne_nil hrest
    exact Graph.mem_order_of_references ((isPath_cons.mp hpath).1 second rfl)
  intro node hnode
  rw [← Graph.order_ofModels]
  exact (hpath.first_reaches node (List.mem_append_left _ hnode)).mem_order
    (Graph.references_mem_order models) hfirst

/-- The search by components reports the same cycles, in the same order and written from the same
models, as the plain search, to which any amount of fuel beyond the number of models makes no
difference. -/
theorem cycles_eq_plainCycles (models : List Model) (extra : ℕ) :
    let g := Graph.ofModels models
    g.cycles = g.plainCycles (g.order.length + extra) := by
  intro g
  rw [Graph.plainCycles_eq_foldl]
  exact Graph.cycles_eq_foldl models (Nat.le_add_right _ _)

end SchemaTypes.References
