import SchemaTypes.Proofs.Model.Naming
import SchemaTypes.Proofs.References.Marking
import SchemaTypes.Proofs.References.Reach

/-!
# The references of a batch

In a batch of models with distinct names, the name of a model stands for this model only. So the graph
knows of it what its fields mention: the mentions of models of the batch are its references, and each
mention of another name is reported, with the path of the model.

Results:
* `mem_references_iff`, `mem_unresolved_iff`: the references of a model of the batch, and the other names that
  it mentions.
* `issues_analyze`: what the analysis reports, model by model.
* `unresolvedIssue_mem_issues`: every mention of an unknown name is reported.
-/

namespace SchemaTypes

namespace References

/-! ## Mentions of a model -/

section Batch

variable {models : List Model} {m : Model}

theorem mem_mentions (hm : m ∈ models) :
    (m.name, m.targets) ∈ (Graph.ofModels models).mentions :=
  List.mem_map_of_mem hm

/-- The name of a model leads to its own mentions. -/
theorem lastMention_ofModels (hnames : (models.map (·.name)).Nodup) (hm : m ∈ models) :
    lastMention (models.map fun m => (m.name, m.targets)) m.name = m.targets := by
  rw [lastMention, ← List.map_reverse, lookup_map_key_of_mem
    (by rwa [List.map_reverse, List.nodup_reverse]) (List.mem_reverse.mpr hm), Option.getD_some]

/-- The references of a model are the models of the batch that its fields mention. -/
theorem mem_references_iff (hnames : (models.map (·.name)).Nodup) (hm : m ∈ models)
    (target : String) :
    target ∈ (Graph.ofModels models).references m.name ↔
      target ∈ m.targets ∧ target ∈ models.map (·.name) := by
  have hkeys : (models.map fun m => (m.name, m.targets)).map (·.1) = models.map (·.name) := by
    simp [Function.comp_def]
  rw [Graph.ofModels, Graph.references_ofMentions, hkeys, if_pos (List.mem_map_of_mem hm),
    mem_listing, List.mem_filter, lastMention_ofModels hnames hm, List.contains_iff_mem]

/-- The unresolved references of a model are the mentions that no model of the batch has as its name. -/
theorem mem_unresolved_iff (hnames : (models.map (·.name)).Nodup) (hm : m ∈ models) (target : String) :
    target ∈ (Graph.ofModels models).unresolved m.name ↔
      target ∈ m.targets ∧ target ∉ models.map (·.name) := by
  have hmention : ((Graph.ofModels models).mentions.filter fun entry => entry.1 == m.name) =
      [(m.name, m.targets)] :=
    filter_key_of_mem (by simpa [Graph.ofModels, Graph.ofMentions, Function.comp_def] using hnames)
      (mem_mentions hm)
  rw [Graph.unresolved, mem_listing, hmention, List.flatMap_singleton, List.mem_filter,
    Graph.order_ofModels, Bool.not_eq_true', ← Bool.not_eq_true, List.contains_iff_mem]

/-- The name of a model leads to its own path. -/
theorem lastPath_marked (hnames : (models.map (·.name)).Nodup) (hm : m ∈ models) :
    lastPath (models.map Model.markSelf) m.name = m.sourcePath := by
  have hmarked : ((models.map Model.markSelf).map (·.name)).Nodup := by
    simpa [Function.comp_def, Model.markSelf_name] using hnames
  have hfind := find?_reverse_key_of_mem hmarked (List.mem_map_of_mem (f := Model.markSelf) hm)
  simp only [Model.markSelf_name] at hfind
  rw [lastPath, hfind]
  rfl

/-- The analysis reports the cycles, and then the unresolved references, model by model. -/
theorem issues_analyze (hnames : (models.map (·.name)).Nodup) :
    (analyze models).issues = (Graph.ofModels models).cycles.map cycleIssue ++
      models.flatMap fun m => ((Graph.ofModels models).unresolved m.name).map fun target =>
        unresolvedIssue m.name target m.sourcePath := by
  have hgraph : Graph.ofModels (models.map Model.markSelf) = Graph.ofModels models :=
    analyze_graph models
  simp only [analyze, hgraph, Graph.order_ofModels, List.flatMap_map]
  congr 1
  refine List.flatMap_congr fun m hm => ?_
  rw [lastPath_marked hnames hm]

/-- The analysis reports every mention of a name that no model of the batch has. -/
theorem unresolvedIssue_mem_issues (hnames : (models.map (·.name)).Nodup) (hm : m ∈ models)
    {target : String} (htarget : target ∈ m.targets) (hnone : target ∉ models.map (·.name)) :
    unresolvedIssue m.name target m.sourcePath ∈ (analyze models).issues := by
  have hunresolved := (mem_unresolved_iff hnames hm target).mpr ⟨htarget, hnone⟩
  rw [issues_analyze hnames]
  exact List.mem_append_right _ (List.mem_flatMap.mpr ⟨m, hm, List.mem_map_of_mem hunresolved⟩)

end Batch

end References

end SchemaTypes
