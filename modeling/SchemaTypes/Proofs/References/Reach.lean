import Mathlib.Data.List.Chain
import Mathlib.Data.List.Nodup
import Mathlib.Data.List.Perm.Subperm
import Mathlib.Logic.Relation
import SchemaTypes.References.Graph

/-!
# Reachability

A model reaches another one if a path of references leads from it to the other. A path is a list of
models, each of which refers to the next one; it is simple if it meets no model twice. A trail is a
simple path within a list of models.

Results:
* `exists_simple_path`: what reaches a member of a set reaches one along a simple path that meets the
  set only at its end.
* `IsTrail.concat`, `IsTrail.length_lt`: a trail is continued by a reference to a model that is not on
  it, and has no more models than there are.
* `Graph.references_mem_order`: a reference of a batch leads to a model of the batch.
-/

namespace SchemaTypes.References

variable {next : String → List String}

/-- `v` is reached from `u` along references. -/
abbrev Reaches (next : String → List String) : String → String → Prop :=
  Relation.ReflTransGen fun u v => v ∈ next u

/-- Each of two models is reached from the other. -/
def Mutual (next : String → List String) (u v : String) : Prop :=
  Reaches next u v ∧ Reaches next v u

theorem Mutual.refl (u : String) : Mutual next u u :=
  ⟨.refl, .refl⟩

theorem Mutual.symm {u v : String} (h : Mutual next u v) : Mutual next v u :=
  ⟨h.2, h.1⟩

theorem Mutual.trans {u v w : String} (huv : Mutual next u v) (hvw : Mutual next v w) :
    Mutual next u w :=
  ⟨huv.1.trans hvw.1, hvw.2.trans huv.2⟩

/-- A path of references. -/
abbrev IsPath (next : String → List String) (path : List String) : Prop :=
  path.IsChain fun u v => v ∈ next u

theorem isPath_cons {u : String} {path : List String} :
    IsPath next (u :: path) ↔ (∀ v ∈ path.head?, v ∈ next u) ∧ IsPath next path :=
  List.isChain_cons

theorem IsPath.concat {path : List String} {u v : String} (h : IsPath next (path ++ [u]))
    (hv : v ∈ next u) : IsPath next (path ++ [u] ++ [v]) := by
  have hstep : IsPath next ([u] ++ [v]) := List.isChain_pair.mpr hv
  exact List.IsChain.append_overlap h hstep (by simp)

/-! ## Paths -/

theorem forall_mem_concat {P : String → Prop} {xs : List String} {x : String}
    (h : ∀ y ∈ xs, P y) (hx : P x) : ∀ y ∈ xs ++ [x], P y := by
  intro y hy
  rcases List.mem_append.mp hy with hy | hy
  · exact h y hy
  · rw [List.mem_singleton.mp hy]
    exact hx

theorem length_le_of_nodup {xs order : List String} (hnodup : xs.Nodup)
    (hsub : ∀ x ∈ xs, x ∈ order) : xs.length ≤ order.length :=
  (List.subperm_of_subset hnodup hsub).length_le

theorem nodup_concat {xs : List String} {x : String} (h : xs.Nodup) (hx : x ∉ xs) :
    (xs ++ [x]).Nodup :=
  h.append (List.nodup_singleton x) (List.disjoint_singleton.mpr hx)

/-- A set that references do not leave holds all that its members reach. -/
theorem Reaches.mem_of_closed {S : String → Prop} (hS : ∀ u, S u → ∀ v ∈ next u, S v) {u v : String}
    (h : Reaches next u v) (hu : S u) : S v := by
  induction h with
  | refl => exact hu
  | tail _ hstep ih => exact hS _ ih _ hstep

/-- Every model of a path reaches the last one. -/
theorem IsPath.reaches_last {path : List String} {last : String}
    (h : IsPath next (path ++ [last])) : ∀ x ∈ path ++ [last], Reaches next x last := by
  induction path with
  | nil =>
    intro x hx
    rw [List.nil_append, List.mem_singleton] at hx
    rw [hx]
  | cons first rest ih =>
    rw [List.cons_append, isPath_cons] at h
    obtain ⟨hstep, hrest⟩ := h
    intro x hx
    rcases List.mem_cons.mp hx with rfl | hx
    · cases rest with
      | nil => exact .single (hstep last rfl)
      | cons second rest => exact .head (hstep second rfl) (ih hrest second (by simp))
    · exact ih hrest x hx

/-- The first model of a path reaches all others. -/
theorem IsPath.first_reaches {first : String} {rest : List String}
    (h : IsPath next (first :: rest)) : ∀ x ∈ first :: rest, Reaches next first x := by
  induction rest generalizing first with
  | nil =>
    intro x hx
    rw [List.mem_singleton.mp hx]
  | cons second rest ih =>
    obtain ⟨hstep, hrest⟩ := isPath_cons.mp h
    intro x hx
    rcases List.mem_cons.mp hx with rfl | hx
    · exact .refl
    · exact .head (hstep second rfl) (ih hrest x hx)

/-- The part of a simple path from one of its models on, which meets a set only at its end. -/
theorem exists_simple_suffix {S : String → Prop} {u y : String} {path : List String}
    (hpath : IsPath next (path ++ [y])) (hnodup : (path ++ [y]).Nodup) (hfree : ∀ z ∈ path, ¬ S z)
    (hu : u ∈ path) : ∃ rest, IsPath next (u :: rest ++ [y]) ∧ (u :: rest ++ [y]).Nodup ∧
      ∀ z ∈ u :: rest, ¬ S z := by
  obtain ⟨before, rest, rfl⟩ := List.append_of_mem hu
  rw [List.append_assoc] at hpath hnodup
  refine ⟨rest, hpath.right_of_append, hnodup.of_append_right, ?_⟩
  intro z hz
  exact hfree z (List.mem_append_right _ hz)

/-- A path that leads into a set can be made simple and cut where it meets the set first. -/
theorem exists_simple_path {S : String → Prop} {u x : String} (h : Reaches next u x) (hx : S x) :
    ∃ path y, (path ++ [y]).head? = some u ∧ IsPath next (path ++ [y]) ∧ (path ++ [y]).Nodup ∧
      S y ∧ ∀ z ∈ path, ¬ S z := by
  induction h using Relation.ReflTransGen.head_induction_on with
  | refl => exact ⟨[], x, rfl, .singleton _, by simp, hx, by simp⟩
  | @head u v hstep _ ih =>
    by_cases hu : S u
    · exact ⟨[], u, rfl, .singleton _, by simp, hu, by simp⟩
    obtain ⟨path, y, hhead, hpath, hnodup, hy, hfree⟩ := ih
    by_cases hmem : u ∈ path
    · obtain ⟨rest, hpath', hnodup', hfree'⟩ := exists_simple_suffix hpath hnodup hfree hmem
      exact ⟨u :: rest, y, rfl, hpath', hnodup', hy, hfree'⟩
    · have hne : u ≠ y := by
        rintro rfl
        exact hu hy
      refine ⟨u :: path, y, rfl, ?_, ?_, hy, ?_⟩
      · rw [List.cons_append, isPath_cons]
        refine ⟨?_, hpath⟩
        intro w hw
        rw [hhead] at hw
        cases hw
        exact hstep
      · rw [List.cons_append, List.nodup_cons]
        refine ⟨?_, hnodup⟩
        simp [hmem, hne]
      · intro z hz
        rcases List.mem_cons.mp hz with rfl | hz
        · exact hu
        · exact hfree z hz

/-- A simple path within the models of `order`. -/
structure IsTrail (next : String → List String) (order trail : List String) : Prop where
  path : IsPath next trail
  nodup : trail.Nodup
  subset : ∀ x ∈ trail, x ∈ order

namespace IsTrail

variable {order trail : List String}

theorem single {node : String} (h : node ∈ order) : IsTrail next order [node] :=
  ⟨List.isChain_singleton node, List.nodup_singleton node, by simpa using h⟩

/-- A trail is continued by a reference to a model that is not on it. -/
theorem concat {path : List String} {node target : String}
    (h : IsTrail next order (path ++ [node])) (hstep : target ∈ next node)
    (htarget : target ∈ order) (hnew : target ∉ path ++ [node]) :
    IsTrail next order (path ++ [node] ++ [target]) :=
  ⟨h.path.concat hstep, nodup_concat h.nodup hnew, forall_mem_concat h.subset htarget⟩

theorem last_mem {path : List String} {node : String} (h : IsTrail next order (path ++ [node])) :
    node ∈ order :=
  h.subset node (by simp)

/-- A trail has no more models than there are. -/
theorem length_lt {path : List String} {node : String} (h : IsTrail next order (path ++ [node])) :
    path.length < order.length := by
  have hlength := length_le_of_nodup h.nodup h.subset
  rw [List.length_append, List.length_singleton] at hlength
  omega

end IsTrail

/-! ## Batches -/

theorem Graph.order_ofModels (models : List Model) :
    (Graph.ofModels models).order = models.map (·.name) := by
  simp [Graph.ofModels, Graph.ofMentions, Graph.order]

theorem Graph.references_mem_order (models : List Model) :
    ∀ u, ∀ v ∈ (Graph.ofModels models).references u, v ∈ (Graph.ofModels models).order := by
  intro u v hv
  exact (Graph.mem_references hv).1

theorem Graph.mem_order_of_references {models : List Model} {u v : String}
    (h : v ∈ (Graph.ofModels models).references u) : u ∈ (Graph.ofModels models).order := by
  rw [Graph.ofModels, Graph.references_ofMentions] at h
  split_ifs at h with hu
  · exact hu
  · cases h

end SchemaTypes.References
