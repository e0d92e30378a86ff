import Mathlib.Data.List.Sort
import SchemaTypes.Proofs.References.Mentions

/-!
# What the analysis reports

A reference stands in a field, in the element of an array, or in the object of either, at any depth. The graph
of a batch sorts the targets of the references of a model into those that models of the batch have and those
that none has, and knows both ends of each of the former. The analysis reports the cycles of the graph and then,
model by model, the targets that no model has, in their order.

Results:
* `referenceIn_iff`, `mem_targetsOf_iff`: the references in fields stand at their places, and the names that
  fields refer to are their targets.
* `mem_references_iff_mem_referrers`: both ends of a reference.
* `listing_strict`, `listing_eq`: a listing names each text once, in order, and is known by the texts in it.
* `analysis_exact`: what the graph and the analysis of a batch say about its references.
-/

namespace SchemaTypes

/-! ## References in fields -/

/-- The single item of a shape, or its element. -/
def Shape.item : Shape → ItemType
  | .single item => item
  | .array item _ => item

/-- A reference to the target stands in some fields: it is the item or the element of one of them, or it stands
in the object there. -/
inductive ReferenceIn (target : String) : List Field → Prop
  | here {fields : List Field} {f : Field} (hf : f ∈ fields)
      (hitem : f.shape.item = .reference target) : ReferenceIn target fields
  | inside {fields inner : List Field} {f : Field} (hf : f ∈ fields)
      (hitem : f.shape.item = .object inner) (hinner : ReferenceIn target inner) :
      ReferenceIn target fields

section Fields

variable {target : String} {fields fields' : List Field} {f : Field}

/-- The targets at the places of a field are that of its item and those inside the item. -/
theorem targetsAt_field (f : Field) : targetsAt (.field f :: f.shape.positions) =
    f.shape.item.target?.toList ++ targetsAt f.shape.item.positions := by
  obtain ⟨_, _, shape, _, _, _, _, _⟩ := f
  cases shape with
  | single item => exact targetsAt_cons _ _
  | array item _ =>
    rw [targetsAt_cons, Shape.positions, targetsAt_cons]
    rfl

theorem targetsAt_positionsOf (fields : List Field) : targetsAt (positionsOf fields) =
    fields.flatMap fun f => targetsAt (.field f :: f.shape.positions) := by
  induction fields with
  | nil => rfl
  | cons f fields ih =>
    obtain ⟨_, _, shape, _, _, _, _, _⟩ := f
    rw [positionsOf, ← List.cons_append, targetsAt_append, ih, List.flatMap_cons]

/-- The targets of fields are those of their items and those inside the items. -/
theorem mem_targetsAt_positionsOf : target ∈ targetsAt (positionsOf fields) ↔
    ∃ f ∈ fields, f.shape.item.target? = some target ∨ target ∈ targetsAt f.shape.item.positions := by
  simp only [targetsAt_positionsOf, List.mem_flatMap, targetsAt_field, List.mem_append,
    Option.mem_toList]

theorem ReferenceIn.mono (h : ReferenceIn target fields) (hsub : fields ⊆ fields') :
    ReferenceIn target fields' := by
  cases h with
  | here hf hitem => exact .here (hsub hf) hitem
  | inside hf hitem hinner => exact .inside (hsub hf) hitem hinner

theorem ReferenceIn.mem_targetsAt (h : ReferenceIn target fields) :
    target ∈ targetsAt (positionsOf fields) := by
  induction h with
  | here hf hitem => exact mem_targetsAt_positionsOf.mpr ⟨_, hf, .inl (by rw [hitem]; rfl)⟩
  | inside hf hitem _ ih =>
    exact mem_targetsAt_positionsOf.mpr ⟨_, hf, .inr (by rwa [hitem, ItemType.positions])⟩

-- The recursion is on the fields as they are nested, so the item carries along the fields where it stands.
mutual

theorem ItemType.referenceIn_of_mem : ∀ item : ItemType,
    (item.target? = some target ∨ target ∈ targetsAt item.positions) →
      ∀ {f : Field} {fields : List Field}, f ∈ fields → f.shape.item = item → ReferenceIn target fields
  | .scalar _, h, _, _, _, _ => by simp [ItemType.target?, ItemType.positions, targetsAt] at h
  | .enum _ _, h, _, _, _, _ => by simp [ItemType.target?, ItemType.positions, targetsAt] at h
  | .reference other, h, _, _, hf, hitem => by
    have htarget : other = target := by
      simpa [ItemType.target?, ItemType.positions, targetsAt] using h
    exact .here hf (htarget ▸ hitem)
  | .object inner, h, _, _, hf, hitem => by
    have hmem : target ∈ targetsAt (positionsOf inner) := by
      simpa [ItemType.target?, ItemType.positions] using h
    exact .inside hf hitem (referenceIn_of_mem inner hmem)

theorem Shape.referenceIn_of_mem : ∀ shape : Shape,
    (shape.item.target? = some target ∨ target ∈ targetsAt shape.item.positions) →
      ∀ {f : Field} {fields : List Field}, f ∈ fields → f.shape = shape → ReferenceIn target fields
  | .single item, h, _, _, hf, hshape => ItemType.referenceIn_of_mem item h hf (hshape ▸ rfl)
  | .array item _, h, _, _, hf, hshape => ItemType.referenceIn_of_mem item h hf (hshape ▸ rfl)

/-- A target at a place of fields is that of a reference in them. -/
theorem referenceIn_of_mem : ∀ fields : List Field, target ∈ targetsAt (positionsOf fields) →
    ReferenceIn target fields
  | [], h => by simp [positionsOf, targetsAt] at h
  | ⟨_, _, shape, _, _, _, _, _⟩ :: fields, h => by
    rw [targetsAt_positionsOf, List.flatMap_cons, ← targetsAt_positionsOf, List.mem_append,
      targetsAt_field, List.mem_append, Option.mem_toList] at h
    rcases h with h | h
    · exact Shape.referenceIn_of_mem shape h List.mem_cons_self rfl
    · exact (referenceIn_of_mem fields h).mono (List.subset_cons_self _ _)

end

/-- The references in fields stand at the places of the fields. -/
theorem referenceIn_iff : ReferenceIn target fields ↔ target ∈ targetsAt (positionsOf fields) :=
  ⟨ReferenceIn.mem_targetsAt, referenceIn_of_mem fields⟩

instance : Decidable (ReferenceIn target fields) :=
  decidable_of_iff _ referenceIn_iff.symm

/-- The names that fields refer to are the targets of the references in them, but for the empty one. -/
theorem mem_targetsOf_iff : target ∈ targetsOf fields ↔ ReferenceIn target fields ∧ target ≠ "" := by
  rw [targetsOf_eq_positions, List.mem_filter, referenceIn_iff, bne_iff_ne]

end Fields

namespace References

/-! ## Listings -/

theorem nodup_eraseDups : ∀ xs : List String, xs.eraseDups.Nodup
  | [] => List.nodup_nil
  | x :: xs => by
    rw [List.eraseDups_cons, List.nodup_cons]
    refine ⟨?_, nodup_eraseDups (xs.filter fun y => !y == x)⟩
    rw [List.mem_eraseDups, List.mem_filter]
    simp
termination_by xs => xs.length
decreasing_by exact Nat.lt_succ_of_le (List.length_filter_le _ _)

/-- A listing names each text once, in order. -/
theorem listing_strict (xs : List String) : (listing xs).Pairwise (· < ·) := by
  have hperm : (listing xs).Perm xs.eraseDups := List.mergeSort_perm _ _
  have hnodup : (listing xs).Nodup := hperm.nodup_iff.mpr (nodup_eraseDups xs)
  refine ((sortTexts_sorted _).and hnodup).imp ?_
  rintro x y ⟨hle, hne⟩
  exact Std.lt_of_le_of_ne hle hne

/-- A listing is known by the texts in it. -/
theorem listing_eq {xs ys : List String} (hys : ys.Pairwise (· < ·)) (hmem : ∀ x, x ∈ xs ↔ x ∈ ys) :
    listing xs = ys :=
  (listing_strict xs).eq_of_mem_iff hys fun x => mem_listing.trans (hmem x)

/-! ## The graph of a batch -/

section Batch

variable {models : List Model} {m : Model}

/-- The referrers of a model of the batch are the names of the models that mention it. -/
theorem mem_referrers_iff (name target : String) :
    name ∈ (Graph.ofModels models).referrers target ↔
      target ∈ models.map (·.name) ∧ ∃ m ∈ models, target ∈ m.targets ∧ m.name = name := by
  have hmentions : (Graph.ofModels models).mentions = models.map fun m => (m.name, m.targets) := rfl
  rw [Graph.referrers, Graph.order_ofModels, hmentions]
  split_ifs with htarget
  · rw [List.contains_iff_mem] at htarget
    simp only [htarget, true_and, mem_listing, List.filter_map, List.map_map, List.mem_map,
      List.mem_filter, Function.comp_apply, List.contains_iff_mem, and_assoc]
  · rw [List.contains_iff_mem] at htarget
    simp only [htarget, false_and, List.not_mem_nil]

/-- What a model references knows of it, and only that does. -/
theorem mem_references_iff_mem_referrers (hnames : (models.map (·.name)).Nodup) (name target : String) :
    target ∈ (Graph.ofModels models).references name ↔
      name ∈ (Graph.ofModels models).referrers target := by
  rw [mem_referrers_iff]
  constructor
  · intro h
    have hname := Graph.mem_order_of_references h
    rw [Graph.order_ofModels] at hname
    obtain ⟨m, hm, rfl⟩ := List.mem_map.mp hname
    obtain ⟨hmention, htarget⟩ := (mem_references_iff hnames hm target).mp h
    exact ⟨htarget, m, hm, hmention, rfl⟩
  · rintro ⟨htarget, m, hm, hmention, rfl⟩
    exact (mem_references_iff hnames hm target).mpr ⟨hmention, htarget⟩

/-- What the graph and the analysis of a batch say about the references of its models. A model references the
targets of its references that models of the batch have as their names, and the others are unresolved, each
once and in order; both ends of a reference know of it. The analysis has this graph and its cycles, and reports
each cycle and then, model by model, each unresolved target. -/
theorem analysis_exact (hnames : (models.map (·.name)).Nodup)
    (htargets : ∀ m ∈ models, ¬ReferenceIn "" m.fields) :
    (∀ m ∈ models,
      (∀ target, target ∈ (Graph.ofModels models).references m.name ↔
        ReferenceIn target m.fields ∧ target ∈ models.map (·.name)) ∧
      (∀ target, target ∈ (Graph.ofModels models).unresolved m.name ↔
        ReferenceIn target m.fields ∧ target ∉ models.map (·.name)) ∧
      ((Graph.ofModels models).unresolved m.name).Pairwise (· < ·)) ∧
    (∀ name target, target ∈ (Graph.ofModels models).references name ↔
      name ∈ (Graph.ofModels models).referrers target) ∧
    (analyze models).graph = Graph.ofModels models ∧
    (analyze models).cycles = (Graph.ofModels models).cycles ∧
    (analyze models).issues =
      ((analyze models).cycles.map fun cycle =>
        { code := .cycleDetected, stage := .analyze, element := cycle.head?, cyclePath := some cycle
          message := "Circular reference: " ++ cycleText cycle ++
            " (emitted as forward type references)" }) ++
      models.flatMap fun m => ((Graph.ofModels models).unresolved m.name).map fun target =>
        { code := .unresolvedReference, stage := .analyze, path := m.sourcePath, element := some m.name
          message := "Model '" ++ m.name ++ "' references unknown model '" ++ target ++ "'" } := by
  have hgraph := analyze_graph models
  have hcycles : (analyze models).cycles = (Graph.ofModels models).cycles := by
    rw [← hgraph]
    rfl
  refine ⟨fun m hm => ?_, mem_references_iff_mem_referrers hnames, hgraph, hcycles, ?_⟩
  · have hmention (target : String) : target ∈ m.targets ↔ ReferenceIn target m.fields := by
      rw [Model.targets, mem_targetsOf_iff, and_iff_left_iff_imp]
      rintro h rfl
      exact htargets m hm h
    refine ⟨fun target => ?_, fun target => ?_, listing_strict _⟩
    · rw [mem_references_iff hnames hm, hmention]
    · rw [mem_unresolved_iff hnames hm, hmention]
  · rw [issues_analyze hnames, hcycles]
    rfl

/-- A model that the employee refers to, and which refers to names that no model has. -/
def office : Model :=
  { name := "Office", sourceKind := .mongoose, sourcePath := some "office.js", description := none
    fields := [⟨"rooms", true, .array (.object [
        ⟨"wing", true, .single (.reference "Wing"), false, none, false, false, none⟩,
        ⟨"tenants", true, .array (.reference "Employee") false, false, none, false, false, none⟩]) false,
          false, none, false, false, none⟩,
      ⟨"city", false, .single (.reference "City"), false, none, false, false, none⟩] }

/-- The graph of the two models. -/
theorem graph_office : Graph.ofModels [employee false, office] =
    { mentions := [("Employee", ["Employee", "Employee", "Employee", "Office"]),
        ("Office", ["Wing", "Employee", "City"])]
      table := [("Employee", ["Employee", "Office"]), ("Office", ["Employee"])] } := by
  have hemployee : (employee false).name = "Employee" ∧
      (employee false).targets = ["Employee", "Employee", "Employee", "Office"] := by decide +kernel
  have hoffice : office.name = "Office" ∧ office.targets = ["Wing", "Employee", "City"] := by
    decide +kernel
  have hreferences : listing ["Employee", "Employee", "Employee", "Office"] = ["Employee", "Office"] ∧
      listing ["Employee"] = ["Employee"] :=
    ⟨listing_eq (by decide) (by simp), listing_eq (by decide) (by simp)⟩
  simp [Graph.ofModels, Graph.ofMentions, hemployee, hoffice, lastMention, List.lookup_cons, hreferences,
    List.eraseDups_cons]

theorem analysis_exact_office :
    ReferenceIn "Wing" office.fields ∧
    "Wing" ∈ (Graph.ofModels [employee false, office]).unresolved "Office" ∧
    "Employee" ∈ (Graph.ofModels [employee false, office]).referrers "Office" ∧
    (analyze [employee false, office]).issues.map (fun i => (i.code, i.element, i.cyclePath)) =
      [(.cycleDetected, some "Employee", some ["Employee", "Office", "Employee"]),
        (.unresolvedReference, some "Office", none), (.unresolvedReference, some "Office", none)] := by
  have hnames : ([employee false, office].map (·.name)).Nodup := by decide
  have htargets : ∀ m ∈ [employee false, office], ¬ReferenceIn "" m.fields := by decide +kernel
  have hwing : ReferenceIn "Wing" office.fields := by decide +kernel
  obtain ⟨hsorted, hends, -, hcycles, hissues⟩ := analysis_exact hnames htargets
  obtain ⟨-, hunresolved, -⟩ := hsorted office (by simp)
  refine ⟨hwing, (hunresolved "Wing").mpr ⟨hwing, by decide⟩, (hends "Employee" "Office").mp ?_, ?_⟩
  · rw [graph_office]
    decide
  · have hknown : (Graph.ofModels [employee false, office]).unresolved (employee false).name = [] := by
      rw [graph_office]
      exact listing_eq (by decide) (by simp [employee, Graph.order])
    have hunknown : (Graph.ofModels [employee false, office]).unresolved office.name =
        ["City", "Wing"] := by
      rw [graph_office]
      exact listing_eq (by decide) (by simp [office, Graph.order, or_comm])
    have hcycle : (Graph.ofModels [employee false, office]).cycles =
        [["Employee", "Office", "Employee"]] := by
      rw [graph_office]
      decide +kernel
    rw [hissues, hcycles, hcycle, List.flatMap_cons, List.flatMap_singleton, hknown, hunknown]
    rfl

end Batch

end References

end SchemaTypes
