import Mathlib.Data.List.Infix
import SchemaTypes.Proofs.Model.EnumTable

/-!
# What becomes of raw enums

Each raw enum leaves one entry in the table of a run, and what stood before it decides which. If it is not
valid it is reported. If it is the first valid one of its name its definition is kept, and it stands for the
name from there on. A later valid one is reported if its values are others, and leaves nothing if they are the
same. The table holds the definitions and the issues of these entries, in order.

Results:
* `find?_eq_some_iff`, `find?_eq_none_iff`: what a table knows of a name.
* `mem_names_iff`: which names a table has.
* `add_accounted`, `foldl_add_accounted`: the entry of one raw enum, and those of a run.
* `collect_accounted`: the table of a run.
-/

namespace SchemaTypes

/-- A raw enum that makes a definition: it has a name, and its values are texts, at least one and all
different. -/
structure RawEnum.IsValid (raw : RawEnum) : Prop where
  named : raw.name ≠ ""
  nonempty : raw.values ≠ []
  distinct : raw.values.Nodup
  typed : raw.illTyped = false

/-- The definition that a valid raw enum makes. -/
def RawEnum.definition (raw : RawEnum) : EnumDefinition :=
  ⟨raw.name, raw.values, raw.sourcePath⟩

/-- The raw enum that stands for its name: no valid one of the name comes before it. -/
def RawEnum.IsFirst (raw : RawEnum) (raws : List RawEnum) : Prop :=
  ∃ before after, raws = before ++ raw :: after ∧ raw.IsValid ∧
    ∀ other ∈ before, other.IsValid → other.name ≠ raw.name

/-- What becomes of a raw enum. -/
inductive EnumEntry where
  | kept (e : EnumDefinition)
  | reported (i : Issue)
  | dropped

namespace EnumEntry

/-- The definition of the entry, if one is kept. -/
@[simp] def definition? : EnumEntry → Option EnumDefinition
  | kept e => some e
  | _ => none

/-- The issue of the entry, if one is reported. -/
@[simp] def issue? : EnumEntry → Option Issue
  | reported i => some i
  | _ => none

/-- The entry that a raw enum leaves behind those before it. The issue about one that is not valid tells its
first fault, and the issue about other values tells those that are kept. -/
inductive Accounts (before : List RawEnum) (raw : RawEnum) : EnumEntry → Prop
  | first (hvalid : raw.IsValid) (hnew : ∀ other ∈ before, other.IsValid → other.name ≠ raw.name) :
      Accounts before raw (.kept raw.definition)
  | invalid {faults : List Fault} (hinvalid : ¬raw.IsValid)
      (hfaults : EnumDefinition.ofRaw raw = .faulty faults) :
      Accounts before raw (.reported
        { code := .schemaParseError, stage := .normalize, path := raw.sourcePath
          message := "Enum '" ++ raw.name ++ "' is malformed: " ++
            (faults.head?.map fun f => f.kind.message).getD ""
          element := some raw.name })
  | conflicting {first : RawEnum} (hvalid : raw.IsValid) (hfirst : first.IsFirst before)
      (hname : first.name = raw.name) (hvalues : first.values ≠ raw.values) :
      Accounts before raw (.reported
        { code := .duplicateEnum, stage := .normalize, path := raw.sourcePath
          message := "Enum '" ++ raw.name ++ "' redeclared with different values; keeping " ++
            Text.quotedList first.values
          element := some raw.name })
  | repeated {first : RawEnum} (hvalid : raw.IsValid) (hfirst : first.IsFirst before)
      (hname : first.name = raw.name) (hvalues : first.values = raw.values) :
      Accounts before raw .dropped

end EnumEntry

variable {before raws : List RawEnum} {raw : RawEnum} {name : String}

/-! ## Valid raw enums -/

theorem RawEnum.definition?_of_isValid (h : raw.IsValid) : raw.definition? = some raw.definition :=
  RawEnum.definition?_eq_some_iff.mpr ⟨h.typed, h.named, h.nonempty, h.distinct, rfl⟩

theorem RawEnum.definition?_eq_none_iff : raw.definition? = none ↔ ¬raw.IsValid := by
  constructor
  · intro h hvalid
    rw [RawEnum.definition?_of_isValid hvalid] at h
    cases h
  · intro h
    rw [Option.eq_none_iff_forall_ne_some]
    intro e he
    obtain ⟨htyped, hnamed, hnonempty, hdistinct, -⟩ := RawEnum.definition?_eq_some_iff.mp he
    exact h ⟨hnamed, hnonempty, hdistinct, htyped⟩

/-- Whether a raw enum makes a definition of the given name. -/
theorem RawEnum.definition?_any_iff :
    (raw.definition?.any fun e => e.name == name) = true ↔ raw.IsValid ∧ raw.name = name := by
  by_cases hvalid : raw.IsValid
  · rw [RawEnum.definition?_of_isValid hvalid]
    simp [hvalid, RawEnum.definition]
  · rw [RawEnum.definition?_eq_none_iff.mpr hvalid]
    simp [hvalid]

namespace EnumTable

/-! ## What a table knows of a name -/

theorem find?_eq_none_iff :
    (collect raws).find? name = none ↔ ∀ raw ∈ raws, raw.IsValid → raw.name ≠ name := by
  rw [find?_collect, List.find?_eq_none]
  constructor
  · intro h raw hraw hvalid hname
    have hmem := List.mem_filterMap.mpr ⟨raw, hraw, RawEnum.definition?_of_isValid hvalid⟩
    exact h _ hmem (beq_iff_eq.mpr hname)
  · intro h e he hname
    obtain ⟨raw, hraw, hmade⟩ := List.mem_filterMap.mp he
    obtain ⟨hvalid, heq⟩ := RawEnum.definition?_any_iff.mp (by rw [hmade]; exact hname)
    exact h raw hraw hvalid heq

/-- A table knows of a name the definition of the raw enum that stands for it. -/
theorem find?_eq_some_iff {e : EnumDefinition} : (collect raws).find? name = some e ↔
    ∃ raw : RawEnum, raw.IsFirst raws ∧ raw.name = name ∧ e = raw.definition := by
  rw [find?_collect, List.find?_filterMap, Option.bind_eq_some_iff]
  constructor
  · rintro ⟨raw, hfound, hdefinition⟩
    obtain ⟨hraw, before, after, rfl, hbefore⟩ := List.find?_eq_some_iff_append.mp hfound
    obtain ⟨hvalid, rfl⟩ := RawEnum.definition?_any_iff.mp hraw
    rw [RawEnum.definition?_of_isValid hvalid] at hdefinition
    refine ⟨raw, ⟨before, after, rfl, hvalid, fun other hother hothervalid hname => ?_⟩, rfl,
      (Option.some.inj hdefinition).symm⟩
    have hnot := hbefore other hother
    rw [Bool.not_eq_true', ← Bool.not_eq_true, RawEnum.definition?_any_iff] at hnot
    exact hnot ⟨hothervalid, hname⟩
  · rintro ⟨raw, ⟨before, after, rfl, hvalid, hbefore⟩, rfl, rfl⟩
    refine ⟨raw, List.find?_eq_some_iff_append.mpr ⟨?_, before, after, rfl, ?_⟩,
      RawEnum.definition?_of_isValid hvalid⟩
    · exact RawEnum.definition?_any_iff.mpr ⟨hvalid, rfl⟩
    · intro other hother
      rw [Bool.not_eq_true', ← Bool.not_eq_true, RawEnum.definition?_any_iff]
      rintro ⟨hothervalid, hname⟩
      exact hbefore other hother hothervalid hname

/-- The names in a table are those that a valid raw enum has. -/
theorem mem_names_iff : name ∈ (collect raws).enums.map (·.name) ↔
    ∃ raw ∈ raws, raw.IsValid ∧ raw.name = name := by
  rw [← not_iff_not]
  have hnone : (collect raws).find? name = none ↔ name ∉ (collect raws).enums.map (·.name) := by
    simp [find?]
  rw [← hnone, find?_eq_none_iff]
  simp only [not_exists, not_and, ne_eq]

/-! ## Entries -/

/-- A raw enum adds its entry to the table of those before it. -/
theorem add_accounted (before : List RawEnum) (raw : RawEnum) :
    ∃ entry, EnumEntry.Accounts before raw entry ∧ (collect before).add raw =
      { enums := (collect before).enums ++ entry.definition?.toList
        issues := (collect before).issues ++ entry.issue?.toList } := by
  by_cases hvalid : raw.IsValid
  · have hmade := EnumDefinition.ofRaw_ok_iff.mpr
      ⟨hvalid.typed, hvalid.named, hvalid.nonempty, hvalid.distinct, rfl⟩
    rw [add, hmade]
    dsimp only
    cases hfound : (collect before).find? raw.name with
    | none =>
      exact ⟨_, .first hvalid (find?_eq_none_iff.mp hfound), by simp [RawEnum.definition]⟩
    | some kept =>
      obtain ⟨first, hfirst, hname, rfl⟩ := find?_eq_some_iff.mp hfound
      by_cases hvalues : first.values = raw.values
      · exact ⟨_, .repeated hvalid hfirst hname hvalues, by simp [RawEnum.definition, hvalues]⟩
      · exact ⟨_, .conflicting hvalid hfirst hname hvalues,
          by simp [RawEnum.definition, hvalues, report]⟩
  · cases hmade : EnumDefinition.ofRaw raw with
    | ok e =>
      have hnone := RawEnum.definition?_eq_none_iff.mpr hvalid
      rw [RawEnum.definition?, hmade] at hnone
      cases hnone
    | faulty faults =>
      rw [add, hmade]
      exact ⟨_, .invalid hvalid hmade, by simp [report]⟩

/-- Raw enums behind others add their entries, in order. -/
theorem foldl_add_accounted (before raws : List RawEnum) :
    ∃ entries, List.Forall₂ (fun place entry => EnumEntry.Accounts place.1 place.2 entry)
        ((raws.inits.map (before ++ ·)).zip raws) entries ∧
      raws.foldl add (collect before) =
        { enums := (collect before).enums ++ entries.filterMap EnumEntry.definition?
          issues := (collect before).issues ++ entries.filterMap EnumEntry.issue? } := by
  induction raws generalizing before with
  | nil => exact ⟨[], .nil, by simp⟩
  | cons raw raws ih =>
    obtain ⟨entry, hentry, hadd⟩ := add_accounted before raw
    obtain ⟨entries, hentries, hfold⟩ := ih (before ++ [raw])
    have hnext : collect (before ++ [raw]) = (collect before).add raw := by
      rw [collect, List.foldl_append]
      rfl
    have hplaces : ((raw :: raws).inits.map (before ++ ·)).zip (raw :: raws) =
        (before, raw) :: (raws.inits.map ((before ++ [raw]) ++ ·)).zip raws := by
      simp [Function.comp_def]
    refine ⟨entry :: entries, hplaces ▸ .cons hentry hentries, ?_⟩
    rw [List.foldl_cons, ← hnext, hfold, hnext, hadd]
    simp only [List.filterMap_eq_flatMap_toList, List.flatMap_cons, List.append_assoc]

/-- What becomes of raw enums. Each has one entry, which depends on it and on those before it: its definition
if it is the first valid one of its name, an issue if it is not valid or has other values than the first one,
and nothing if it has the same. The table holds the definitions and the issues of the entries in order. The
definitions have different names, which are those of the valid raw enums, and each is that of the raw enum that
stands for its name. -/
theorem collect_accounted (raws : List RawEnum) :
    (∃ entries, List.Forall₂ (fun place entry => EnumEntry.Accounts place.1 place.2 entry)
        (raws.inits.zip raws) entries ∧
      (collect raws).enums = entries.filterMap EnumEntry.definition? ∧
      (collect raws).issues = entries.filterMap EnumEntry.issue?) ∧
    ((collect raws).enums.map (·.name)).Nodup ∧
    (∀ name, name ∈ (collect raws).enums.map (·.name) ↔
      ∃ raw ∈ raws, raw.IsValid ∧ raw.name = name) ∧
    ∀ e, e ∈ (collect raws).enums ↔ ∃ raw : RawEnum, raw.IsFirst raws ∧ e = raw.definition := by
  refine ⟨?_, names_collect_nodup raws, fun _ => mem_names_iff, fun e => ⟨fun he => ?_, ?_⟩⟩
  · obtain ⟨entries, hentries, hfold⟩ := foldl_add_accounted [] raws
    refine ⟨entries, by simpa using hentries, ?_, ?_⟩
    · exact congrArg EnumTable.enums hfold
    · exact congrArg EnumTable.issues hfold
  · obtain ⟨raw, hfirst, -, heq⟩ := find?_eq_some_iff.mp (find?_of_mem he)
    exact ⟨raw, hfirst, heq⟩
  · rintro ⟨raw, hfirst, rfl⟩
    exact List.mem_of_find?_eq_some (find?_eq_some_iff.mpr ⟨raw, hfirst, rfl, rfl⟩)

end EnumTable

end SchemaTypes
