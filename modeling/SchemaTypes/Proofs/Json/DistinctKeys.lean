import Mathlib.Data.List.Nodup
import SchemaTypes.Json.Reader

/-!
# Distinct keys

An object is a list of entries, and what holds of its entries by key needs each key once. A reader puts
the entries of an object together one by one, a later one in place of an earlier one with its key, so
every value that is read has distinct keys at every depth.

Results:
* `hasDistinctKeys_of_lookup`: an entry of a value with distinct keys.
* `keys_insert`: the keys after an entry is inserted.
* `read?_hasDistinctKeys`: a value that is read.
-/

namespace SchemaTypes.Json

mutual

/-- Whether no object in the value has two entries with one key. -/
def hasDistinctKeys : Json → Bool
  | .arr items => allDistinct items
  | .obj entries => decide (entries.map (·.1)).Nodup && entriesDistinct entries
  | .null => true
  | .bool _ => true
  | .int _ => true
  | .float _ => true
  | .str _ => true

/-- Whether the values have distinct keys. -/
def allDistinct : List Json → Bool
  | [] => true
  | v :: vs => v.hasDistinctKeys && allDistinct vs

/-- Whether the values of the entries have distinct keys. -/
def entriesDistinct : List (String × Json) → Bool
  | [] => true
  | (_, v) :: entries => v.hasDistinctKeys && entriesDistinct entries

end

variable {items : List Json} {entries : List (String × Json)} {key : String} {v : Json}

@[simp] theorem hasDistinctKeys_arr :
    (arr items).hasDistinctKeys = true ↔ ∀ v ∈ items, v.hasDistinctKeys = true := by
  rw [hasDistinctKeys]
  induction items with
  | nil => simp [allDistinct]
  | cons v items ih => simp [allDistinct, ih]

@[simp] theorem hasDistinctKeys_obj : (obj entries).hasDistinctKeys = true ↔
    (entries.map (·.1)).Nodup ∧ ∀ e ∈ entries, e.2.hasDistinctKeys = true := by
  have hvalues : entriesDistinct entries = true ↔ ∀ e ∈ entries, e.2.hasDistinctKeys = true := by
    induction entries with
    | nil => simp [entriesDistinct]
    | cons e entries ih => simp [entriesDistinct, ih]
  simp [hasDistinctKeys, hvalues]

theorem mem_of_lookup (h : lookup key entries = some v) : (key, v) ∈ entries := by
  induction entries with
  | nil => simp [lookup] at h
  | cons e entries ih =>
    obtain ⟨k, w⟩ := e
    by_cases hk : k = key
    · simp only [lookup, hk, if_true, Option.some.injEq] at h
      simp [hk, h]
    · simp only [lookup, hk, if_false] at h
      exact List.mem_cons_of_mem _ (ih h)

/-- Where keys are distinct, an entry is found under its key. -/
theorem lookup_of_mem (hkeys : (entries.map (·.1)).Nodup) (h : (key, v) ∈ entries) :
    lookup key entries = some v := by
  induction entries with
  | nil => cases h
  | cons e entries ih =>
    obtain ⟨k, w⟩ := e
    rw [List.map_cons, List.nodup_cons] at hkeys
    rw [lookup]
    rcases List.mem_cons.mp h with heq | hmem
    · obtain ⟨rfl, rfl⟩ := Prod.mk.inj heq
      rw [if_pos rfl]
    · have hk : k ≠ key := by
        rintro rfl
        exact hkeys.1 (List.mem_map.mpr ⟨_, hmem, rfl⟩)
      rw [if_neg hk]
      exact ih hkeys.2 hmem

/-- An entry of a value with distinct keys has distinct keys. -/
theorem hasDistinctKeys_of_lookup (hkeys : (obj entries).hasDistinctKeys = true)
    (h : lookup key entries = some v) : v.hasDistinctKeys = true :=
  (hasDistinctKeys_obj.mp hkeys).2 _ (mem_of_lookup h)

/-- An entry that is inserted brings its key, unless it was there. -/
theorem keys_insert (key : String) (v : Json) (entries : List (String × Json)) :
    (insert key v entries).map (·.1) =
      if key ∈ entries.map (·.1) then entries.map (·.1) else entries.map (·.1) ++ [key] := by
  induction entries with
  | nil => simp [insert]
  | cons e entries ih =>
    by_cases hk : e.1 = key
    · simp [insert, hk]
    · have hne : key ≠ e.1 := Ne.symm hk
      by_cases hmem : key ∈ entries.map (·.1)
      · simp only [insert, hk, if_false, List.map_cons, ih, hmem, if_true, List.mem_cons, or_true]
      · simp only [insert, hk, if_false, List.map_cons, ih, hmem, List.mem_cons, hne, or_self,
          List.cons_append]

theorem mem_insert {e : String × Json} (h : e ∈ insert key v entries) :
    e.2 = v ∨ e ∈ entries := by
  induction entries with
  | nil => simp_all [insert]
  | cons first entries ih =>
    by_cases hk : first.1 = key
    · rw [insert, if_pos hk] at h
      rcases List.mem_cons.mp h with rfl | h
      · exact Or.inl rfl
      · exact Or.inr (List.mem_cons_of_mem _ h)
    · rw [insert, if_neg hk] at h
      rcases List.mem_cons.mp h with rfl | h
      · exact Or.inr List.mem_cons_self
      · exact (ih h).imp_right (List.mem_cons_of_mem _)

theorem hasDistinctKeys_insert (key : String) (hkeys : (obj entries).hasDistinctKeys = true)
    (hv : v.hasDistinctKeys = true) : (obj (insert key v entries)).hasDistinctKeys = true := by
  obtain ⟨hnodup, hvalues⟩ := hasDistinctKeys_obj.mp hkeys
  refine hasDistinctKeys_obj.mpr ⟨?_, fun e he => ?_⟩
  · rw [keys_insert]
    split
    · exact hnodup
    · rename_i hnew
      rw [List.nodup_append]
      exact ⟨hnodup, List.nodup_singleton key, fun k hk other hother heq =>
        hnew (List.mem_singleton.mp hother ▸ heq ▸ hk)⟩
  · rcases mem_insert he with hev | he
    · rwa [hev]
    · exact hvalues e he

/-! ## Reading -/

theorem readWord_eq {word : String} {value : Json} {cs rest : List Char}
    (h : readWord word value cs = some (v, rest)) : v = value := by
  obtain ⟨_, -, heq⟩ := Option.map_eq_some_iff.mp h
  exact (Prod.mk.inj heq).1.symm

theorem readMagnitude_hasDistinctKeys {negative : Bool} {cs rest : List Char}
    (h : readMagnitude negative cs = some (v, rest)) : v.hasDistinctKeys = true := by
  simp only [readMagnitude, bind, Option.bind_eq_some_iff] at h
  obtain ⟨⟨whole, afterWhole⟩, -, ⟨fraction, afterFraction⟩, -, ⟨exponent, left⟩, -, h⟩ := h
  dsimp only at h
  split at h
  · split at h
    · simp at h
    · rw [← (Prod.mk.inj (Option.some.inj h)).1, hasDistinctKeys]
  · rw [← (Prod.mk.inj (Option.some.inj h)).1, hasDistinctKeys]

theorem readAtom_hasDistinctKeys {cs rest : List Char} (h : readAtom cs = some (v, rest)) :
    v.hasDistinctKeys = true := by
  unfold readAtom at h
  split at h
  iterate 6 rw [readWord_eq h, hasDistinctKeys]
  all_goals exact readMagnitude_hasDistinctKeys h

/-- Whether what is read with some fuel has distinct keys. Entries are added to those already read. -/
structure ReadsDistinct (rules : Rules) (fuel : Nat) : Prop where
  value : ∀ {depth cs v rest}, readValue rules fuel depth cs = some (v, rest) →
    v.hasDistinctKeys = true
  items : ∀ {depth cs items rest}, readItems rules fuel depth cs = some (items, rest) →
    (arr items).hasDistinctKeys = true
  entries : ∀ {depth before cs entries rest}, (obj before).hasDistinctKeys = true →
    readEntries rules fuel depth before cs = some (entries, rest) →
      (obj entries).hasDistinctKeys = true

section Step

variable {rules : Rules} {fuel depth : Nat} {cs rest : List Char} (ih : ReadsDistinct rules fuel)
include ih

theorem readValue_hasDistinctKeys (h : readValue rules (fuel + 1) depth cs = some (v, rest)) :
    v.hasDistinctKeys = true := by
  unfold readValue at h
  split at h
  · simp at h
  · obtain ⟨⟨text, after⟩, -, heq⟩ := Option.map_eq_some_iff.mp h
    rw [← (Prod.mk.inj heq).1, hasDistinctKeys]
  · rename_i heq
    obtain rfl := Nat.succ.inj heq
    split at h
    · simp [← (Prod.mk.inj (Option.some.inj h)).1]
    · split at h
      · simp at h
      · obtain ⟨⟨items, after⟩, hread, heq⟩ := Option.map_eq_some_iff.mp h
        exact (Prod.mk.inj heq).1 ▸ ih.items hread
  · rename_i heq
    obtain rfl := Nat.succ.inj heq
    split at h
    · simp [← (Prod.mk.inj (Option.some.inj h)).1]
    · split at h
      · simp at h
      · obtain ⟨⟨entries, after⟩, hread, heq⟩ := Option.map_eq_some_iff.mp h
        exact (Prod.mk.inj heq).1 ▸ ih.entries (by simp) hread
  · exact readAtom_hasDistinctKeys h

theorem readItems_hasDistinctKeys (h : readItems rules (fuel + 1) depth cs = some (items, rest)) :
    (arr items).hasDistinctKeys = true := by
  unfold readItems at h
  split at h
  · simp at h
  · rename_i hread
    have hitem := ih.value hread
    split at h
    · obtain ⟨⟨later, after⟩, hlater, heq⟩ := Option.map_eq_some_iff.mp h
      rw [← (Prod.mk.inj heq).1, hasDistinctKeys_arr, List.forall_mem_cons]
      exact ⟨hitem, hasDistinctKeys_arr.mp (ih.items hlater)⟩
    · simpa [← (Prod.mk.inj (Option.some.inj h)).1] using hitem
    · simp at h

theorem readEntries_hasDistinctKeys {before : List (String × Json)}
    (hbefore : (obj before).hasDistinctKeys = true)
    (h : readEntries rules (fuel + 1) depth before cs = some (entries, rest)) :
    (obj entries).hasDistinctKeys = true := by
  unfold readEntries at h
  split at h
  · simp at h
  · rename_i heq
    obtain rfl := Nat.succ.inj heq
    split at h
    · simp at h
    · split at h
      · split at h
        · simp at h
        · rename_i hread
          have hadded (key : String) := hasDistinctKeys_insert key hbefore (ih.value hread)
          dsimp only at h
          split at h
          · exact ih.entries (hadded _) h
          · exact (Prod.mk.inj (Option.some.inj h)).1 ▸ hadded _
          · simp at h
      · simp at h
  · simp at h

end Step

theorem readsDistinct (rules : Rules) (fuel : Nat) : ReadsDistinct rules fuel := by
  induction fuel with
  | zero => constructor <;> simp [readValue, readItems, readEntries]
  | succ fuel ih =>
    exact ⟨readValue_hasDistinctKeys ih, readItems_hasDistinctKeys ih, readEntries_hasDistinctKeys ih⟩

/-- A value that is read has distinct keys. -/
theorem read?_hasDistinctKeys {rules : Rules} {text : String} (h : read? rules text = some v) :
    v.hasDistinctKeys = true := by
  unfold read? at h
  dsimp only at h
  split at h
  · rename_i hread
    split at h
    · exact Option.some.inj h ▸ (readsDistinct rules _).value hread
    · simp at h
  · simp at h

end SchemaTypes.Json
