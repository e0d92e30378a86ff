import Mathlib.Data.List.Nodup
import SchemaTypes.Proofs.Model.Batch

/-!
# Names of a batch

A batch that goes through holds a model for each raw model that can be normalized, and no two of them
share a name. So a name leads to one model, whether the list is searched from its front or its end.

Results:
* `duplicates_eq_nil_iff`: names are distinct if none of them is a duplicate.
* `find?_key_of_mem`, `find?_reverse_key_of_mem`, `filter_key_of_mem`, `lookup_map_key_of_mem`: what is
  found by a name that stands once.
* `mem_batch`: every model of a batch is that of a raw model.
* `names_batch_nodup`: the names of a batch are distinct.
-/

namespace SchemaTypes

theorem duplicates_eq_nil_iff {xs : List String} : duplicates xs = [] ↔ xs.Nodup := by
  rw [List.eq_nil_iff_forall_not_mem, List.nodup_iff_count_le_one]
  simp only [mem_duplicates_iff, Nat.not_lt]

/-! ## Looking up by name -/

section Key

variable {α : Type} {key : α → String} {xs : List α} {x : α}

/-- No other item has the key. -/
theorem filter_key_of_mem (h : (xs.map key).Nodup) (hx : x ∈ xs) :
    xs.filter (fun y => key y == key x) = [x] := by
  induction xs with
  | nil => simp at hx
  | cons y ys ih =>
    rw [List.map_cons, List.nodup_cons] at h
    rcases List.mem_cons.mp hx with rfl | hx
    · have hrest : ys.filter (fun y => key y == key x) = [] := by
        rw [List.filter_eq_nil_iff]
        intro y hy heq
        exact h.1 (beq_iff_eq.mp heq ▸ List.mem_map_of_mem hy)
      rw [List.filter_cons_of_pos (by simp), hrest]
    · have hne : key y ≠ key x := fun heq => h.1 (heq ▸ List.mem_map_of_mem hx)
      rw [List.filter_cons_of_neg (by simpa using hne), ih h.2 hx]

/-- An item is found by its key if no other item has the key. -/
theorem find?_key_of_mem (h : (xs.map key).Nodup) (hx : x ∈ xs) :
    xs.find? (fun y => key y == key x) = some x := by
  rw [← List.head?_filter, filter_key_of_mem h hx]
  rfl

theorem find?_reverse_key_of_mem (h : (xs.map key).Nodup) (hx : x ∈ xs) :
    xs.reverse.find? (fun y => key y == key x) = some x :=
  find?_key_of_mem (by rwa [List.map_reverse, List.nodup_reverse]) (List.mem_reverse.mpr hx)

/-- Among pairs that a function makes, the value of a key that stands once is that of its item. -/
theorem lookup_map_key_of_mem {β : Type} {f : α → β} (h : (xs.map key).Nodup) (hx : x ∈ xs) :
    (xs.map fun y => (key y, f y)).lookup (key x) = some (f x) := by
  induction xs with
  | nil => simp at hx
  | cons y ys ih =>
    rw [List.map_cons, List.nodup_cons] at h
    rcases List.mem_cons.mp hx with rfl | hx
    · simp
    · have hne : key x ≠ key y := fun heq => h.1 (heq ▸ List.mem_map_of_mem hx)
      rw [List.map_cons, List.lookup_cons, beq_false_of_ne hne]
      exact ih h.2 hx

end Key

/-! ## Models of a batch -/

/-- What a normalized model is: it has the name of the raw model, which is not empty, and the fields are
those of the raw model. -/
theorem Model.ofRaw_ok {raw : RawModel} {m : Model} (h : Model.ofRaw raw = .ok m) :
    m.name = raw.name ∧ raw.name ≠ "" ∧
      (normalizeEach raw.name raw.fields).bind (siblings raw.name) = .ok m.fields := by
  unfold Model.ofRaw at h
  split at h
  · simp at h
  · rename_i fields hfields
    dsimp only at h
    split at h
    · rename_i model hmodel
      obtain rfl := Except.ok.inj h
      change Checked.seq (Checked.map _ _) _ = _ at hmodel
      simp only [Checked.seq_ok_iff, Checked.map_ok_iff, Checked.below_ok_iff,
        Checked.nonempty_ok_iff] at hmodel
      obtain ⟨_, kind, ⟨name, ⟨hne, rfl⟩, rfl⟩, -, rfl⟩ := hmodel
      exact ⟨rfl, hne, hfields⟩
    · simp at h

section Batch

variable {seen raws : List RawModel} {raw : RawModel} {models : List Model} {issues : List Issue}

/-- What a batch that goes through does with its first model: the name is new, and the model is
normalized or left out. -/
theorem Model.batchAfter_cons_ok (h : Model.batchAfter seen (raw :: raws) = .ok (models, issues)) :
    raw.name ∉ seen.map (·.name) ∧ ∃ later laterIssues,
      Model.batchAfter (seen ++ [raw]) raws = .ok (later, laterIssues) ∧
        ((∃ m, Model.ofRaw raw = .ok m ∧ models = m :: later) ∨ models = later) := by
  by_cases hnew : raw.name ∈ seen.map (·.name)
  · obtain ⟨i, hrepeated⟩ := Model.batchAfter_cons_repeated hnew raws
    simp [hrepeated] at h
  refine ⟨hnew, ?_⟩
  have hsame := same_isEmpty_iff.mpr hnew
  rcases Model.ofRaw_cases raw with ⟨m, hm⟩ | ⟨i, hi⟩ | ⟨faults, hinvalid⟩
  · cases hlater : Model.batchAfter (seen ++ [raw]) raws with
    | error problem => simp [(Model.batchAfter_cons hnew (Or.inl ⟨m, hm⟩) problem).mpr hlater] at h
    | ok out =>
      simp only [batchAfter, hsame, if_true, hm, hlater, bind, Except.bind, pure, Except.pure,
        Except.ok.injEq, Prod.mk.injEq] at h
      exact ⟨out.1, out.2, rfl, Or.inl ⟨m, hm, h.1.symm⟩⟩
  · cases hlater : Model.batchAfter (seen ++ [raw]) raws with
    | error problem => simp [(Model.batchAfter_cons hnew (Or.inr ⟨i, hi⟩) problem).mpr hlater] at h
    | ok out =>
      simp only [batchAfter, hsame, if_true, hi, hlater, bind, Except.bind, pure, Except.pure,
        Except.ok.injEq, Prod.mk.injEq] at h
      exact ⟨out.1, out.2, rfl, Or.inr h.1.symm⟩
  · simp [Model.batchAfter_cons_invalid hnew hinvalid] at h

theorem Model.mem_batchAfter (h : Model.batchAfter seen raws = .ok (models, issues)) {m : Model}
    (hm : m ∈ models) :
    ∃ raw ∈ raws, Model.ofRaw raw = .ok m ∧ raw.name ∉ seen.map (·.name) := by
  induction raws generalizing seen models issues with
  | nil =>
    simp only [batchAfter, Except.ok.injEq, Prod.mk.injEq] at h
    simp [← h.1] at hm
  | cons raw raws ih =>
    obtain ⟨hnew, later, laterIssues, hlater, hmodels⟩ := Model.batchAfter_cons_ok h
    have hmem : m ∈ later → ∃ raw' ∈ raw :: raws, Model.ofRaw raw' = .ok m ∧
        raw'.name ∉ seen.map (·.name) := by
      intro hm
      obtain ⟨raw', hraw', hof, hname⟩ := ih hlater hm
      exact ⟨raw', List.mem_cons_of_mem _ hraw', hof, fun hseen => hname (by simp [hseen])⟩
    rcases hmodels with ⟨first, hfirst, rfl⟩ | rfl
    · rcases List.mem_cons.mp hm with rfl | hm
      · exact ⟨raw, List.mem_cons_self, hfirst, hnew⟩
      · exact hmem hm
    · exact hmem hm

theorem Model.names_batchAfter_nodup (h : Model.batchAfter seen raws = .ok (models, issues)) :
    (models.map (·.name)).Nodup := by
  induction raws generalizing seen models issues with
  | nil =>
    simp only [batchAfter, Except.ok.injEq, Prod.mk.injEq] at h
    simp [← h.1]
  | cons raw raws ih =>
    obtain ⟨-, later, laterIssues, hlater, hmodels⟩ := Model.batchAfter_cons_ok h
    rcases hmodels with ⟨first, hfirst, rfl⟩ | rfl
    · rw [List.map_cons, List.nodup_cons]
      refine ⟨fun hrepeated => ?_, ih hlater⟩
      obtain ⟨m, hm, hname⟩ := List.mem_map.mp hrepeated
      obtain ⟨raw', -, hof, hnew⟩ := Model.mem_batchAfter hlater hm
      rw [(Model.ofRaw_ok hof).1, (Model.ofRaw_ok hfirst).1] at hname
      exact hnew (by simp [hname])
    · exact ih hlater

/-- Every model of a batch is that of a raw model. -/
theorem Model.mem_batch (h : Model.batch raws = .ok (models, issues)) {m : Model}
    (hm : m ∈ models) : ∃ raw ∈ raws, Model.ofRaw raw = .ok m := by
  obtain ⟨raw, hraw, hof, -⟩ := Model.mem_batchAfter h hm
  exact ⟨raw, hraw, hof⟩

/-- The models of a batch have different names. -/
theorem Model.names_batch_nodup (h : Model.batch raws = .ok (models, issues)) :
    (models.map (·.name)).Nodup :=
  Model.names_batchAfter_nodup h

end Batch

end SchemaTypes
