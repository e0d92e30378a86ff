import SchemaTypes.Proofs.Prisma.Outcomes

/-!
# The order of sources

A schema that is spread over several sources does not depend on their order, but for the order of what it
holds. Each source is scanned by itself, and each block is read by itself, apart from the enums that its
fields name. Of the enums of one name the first one counts, in the order of the sources. So the order shows
only where enums of one name have other values, and where they agree, models, enums and issues are the same
ones in another order.

Results:
* `enumsAgree_iff`: enum blocks agree if the enums of the schema do.
* `modelOfBlock_of_valuesAt?`, `valuesAt?_perm`: a model depends on the values of names, and these do not
  depend on the order of enums that agree.
* `ofSources_perm`: models, enums and issues of sources in another order.
-/

namespace SchemaTypes.Prisma

/-! ## Values of names -/

section Values

variable {enums enums' : List RawEnum}

/-- The values that a name has among the enums: those of the first enum of the name. -/
def valuesAt? (enums : List RawEnum) (name : String) : Option (List String) :=
  (enums.find? fun e => e.name == name).map RawEnum.values

/-- The raw field of a line depends on the values of the name of its type. -/
theorem resolve_of_valuesAt? {line : FieldLine}
    (h : valuesAt? enums line.typeName = valuesAt? enums' line.typeName) :
    resolve enums line = resolve enums' line := by
  unfold valuesAt? at h
  unfold resolve
  cases hfound : enums.find? fun e => e.name == line.typeName with
  | none =>
    rw [hfound, Option.map_none, eq_comm, Option.map_eq_none_iff] at h
    rw [h]
  | some e =>
    rw [hfound, Option.map_some, eq_comm, Option.map_eq_some_iff] at h
    obtain ⟨e', hfound', hvalues⟩ := h
    simp only [hfound', hvalues]

theorem fieldsOfLines_of_valuesAt? (h : ∀ name, valuesAt? enums name = valuesAt? enums' name)
    (number : Nat) (docs : List String) (lines : List (List Char)) :
    fieldsOfLines enums number docs lines = fieldsOfLines enums' number docs lines := by
  have hresolve : resolve enums = resolve enums' := by
    funext line
    exact resolve_of_valuesAt? (h line.typeName)
  induction lines generalizing number docs with
  | nil => rfl
  | cons line lines ih => simp only [fieldsOfLines, ih, hresolve]

/-- The model of a block depends on the values of names. -/
theorem modelOfBlock_of_valuesAt? (h : ∀ name, valuesAt? enums name = valuesAt? enums' name) (b : Block) :
    modelOfBlock enums b = modelOfBlock enums' b := by
  unfold modelOfBlock
  rw [fieldsOfLines_of_valuesAt? h]

/-- In another order, the enums give the same values to a name if those of the name agree. -/
theorem valuesAt?_perm (horder : enums.Perm enums') {name : String}
    (hagree : ∀ e ∈ enums, ∀ e' ∈ enums, e.name = name → e'.name = name → e.values = e'.values) :
    valuesAt? enums name = valuesAt? enums' name := by
  unfold valuesAt?
  cases hfound : enums.find? fun e => e.name == name with
  | none =>
    have hnone : enums'.find? (fun e => e.name == name) = none := by
      apply List.find?_eq_none.mpr
      intro e he
      exact List.find?_eq_none.mp hfound e (horder.mem_iff.mpr he)
    rw [hnone]
  | some e =>
    have he := List.mem_of_find?_eq_some hfound
    have hname : e.name = name := by simpa using List.find?_some hfound
    cases hfound' : enums'.find? fun e => e.name == name with
    | none =>
      have hother := List.find?_eq_none.mp hfound' e (horder.mem_iff.mp he)
      exact absurd (beq_iff_eq.mpr hname) hother
    | some e' =>
      have he' := horder.mem_iff.mpr (List.mem_of_find?_eq_some hfound')
      have hname' : e'.name = name := by simpa using List.find?_some hfound'
      show some e.values = some e'.values
      rw [hagree e he e' he' hname hname']

end Values

/-! ## Schemas -/

section Schemas

variable {sources sources' : List Source}

/-- Whether enum blocks of one name have the same values, if they can be read. -/
def EnumsAgree (sources : List Source) : Prop :=
  ∀ b ∈ blocksWith (· == .enum) sources, ∀ b' ∈ blocksWith (· == .enum) sources, b.name = b'.name →
    ∀ e e', enumOfBlock b = .ok e → enumOfBlock b' = .ok e' → e.values = e'.values

theorem enumOfBlock_name {b : Block} {e : RawEnum} (h : enumOfBlock b = .ok e) : e.name = b.name := by
  have houtcome := enumOfBlock_outcome b
  rw [h] at houtcome
  exact houtcome.1

theorem Schema.mem_enums {e : RawEnum} : e ∈ (Schema.ofSources sources).enums ↔
    ∃ b ∈ blocksWith (· == .enum) sources, enumOfBlock b = .ok e :=
  mem_partition_ok.trans List.mem_map

/-- Enum blocks agree if the enums of the schema do. -/
theorem enumsAgree_iff : EnumsAgree sources ↔ ∀ e ∈ (Schema.ofSources sources).enums,
    ∀ e' ∈ (Schema.ofSources sources).enums, e.name = e'.name → e.values = e'.values := by
  constructor
  · intro h e he e' he' hname
    obtain ⟨b, hb, hread⟩ := Schema.mem_enums.mp he
    obtain ⟨b', hb', hread'⟩ := Schema.mem_enums.mp he'
    rw [enumOfBlock_name hread, enumOfBlock_name hread'] at hname
    exact h b hb b' hb' hname e e' hread hread'
  · intro h b hb b' hb' hname e e' hread hread'
    apply h e (Schema.mem_enums.mpr ⟨b, hb, hread⟩) e' (Schema.mem_enums.mpr ⟨b', hb', hread'⟩)
    rw [enumOfBlock_name hread, enumOfBlock_name hread', hname]

section Order

variable (horder : sources.Perm sources')

include horder

/-- Each source is scanned by itself. -/
theorem scanAll_perm : (scanAll sources).Perm (scanAll sources') :=
  horder.flatMap_right _

theorem blocksWith_perm (p : Keyword → Bool) : (blocksWith p sources).Perm (blocksWith p sources') :=
  ((scanAll_perm horder).filterMap _).filter _

theorem openHeaders_perm : ((scanAll sources).filterMap Found.fault?).Perm
    ((scanAll sources').filterMap Found.fault?) :=
  (scanAll_perm horder).filterMap _

end Order

/-- What comes out of blocks in another order, and the faults. -/
theorem partition_perm {α ε : Type} {results results' : List (Except ε α)}
    (h : results.Perm results') :
    (partition results).1.Perm (partition results').1 ∧ (partition results).2.Perm (partition results').2 := by
  rw [partition_fst, partition_fst, partition_snd, partition_snd]
  exact ⟨h.filterMap _, h.filterMap _⟩

/-- Sources in another order have the same models, enums and issues in another order, if no two enum blocks
of one name have other values. -/
theorem ofSources_perm (horder : sources.Perm sources') (hagree : EnumsAgree sources) :
    (Schema.ofSources sources).raw.models.Perm (Schema.ofSources sources').raw.models ∧
      (Schema.ofSources sources).raw.enums.Perm (Schema.ofSources sources').raw.enums ∧
      (Schema.ofSources sources).raw.issues.Perm (Schema.ofSources sources').raw.issues := by
  have henumBlocks := (blocksWith_perm horder (· == .enum)).map enumOfBlock
  obtain ⟨henums, henumFaults⟩ := partition_perm henumBlocks
  have hvalues (name : String) : valuesAt? (Schema.ofSources sources).enums name =
      valuesAt? (Schema.ofSources sources').enums name := by
    apply valuesAt?_perm henums
    intro e he e' he' hname hname'
    exact enumsAgree_iff.mp hagree e he e' he' (hname.trans hname'.symm)
  -- So blocks are read alike in both orders.
  have hread : modelOfBlock (Schema.ofSources sources).enums =
      modelOfBlock (Schema.ofSources sources').enums := by
    funext b
    exact modelOfBlock_of_valuesAt? hvalues b
  have hmodelBlocks : ((blocksWith Keyword.declaresFields sources).map
      (modelOfBlock (Schema.ofSources sources).enums)).Perm
        ((blocksWith Keyword.declaresFields sources').map
          (modelOfBlock (Schema.ofSources sources').enums)) := by
    rw [hread]
    exact (blocksWith_perm horder Keyword.declaresFields).map _
  obtain ⟨hmodels, hmodelFaults⟩ := partition_perm hmodelBlocks
  refine ⟨hmodels, henums, ?_⟩
  exact (((openHeaders_perm horder).append henumFaults).append hmodelFaults).map BlockFault.issue

end Schemas

/-- A header that is left open, in a source with a path. -/
def openSource : Source :=
  { path := some "open.prisma", text := "model Post \x7b\n  id Int\n".toList }

/-- A model with an enum that two sources declare alike, and a header that is left open. -/
def agreeingSources : List Source :=
  [userSource, roleSource "A" "B", openSource, roleSource "A" "B"]

theorem ofSources_perm_reverse :
    agreeingSources.Perm agreeingSources.reverse ∧ EnumsAgree agreeingSources ∧
      (Schema.ofSources agreeingSources).raw.models.Perm
        (Schema.ofSources agreeingSources.reverse).raw.models ∧
      (Schema.ofSources agreeingSources).raw.enums.Perm
        (Schema.ofSources agreeingSources.reverse).raw.enums ∧
      (Schema.ofSources agreeingSources).raw.issues.Perm
        (Schema.ofSources agreeingSources.reverse).raw.issues := by
  have horder : agreeingSources.Perm agreeingSources.reverse := agreeingSources.reverse_perm.symm
  have hagree : EnumsAgree agreeingSources := by
    rw [enumsAgree_iff]
    decide +kernel
  exact ⟨horder, hagree, ofSources_perm horder hagree⟩

/-- Where enums of one name have other values, the order of the sources shows. -/
example : ¬(Schema.ofSources [userSource, roleSource "A" "B", roleSource "B" "A"]).raw.models.Perm
    (Schema.ofSources [userSource, roleSource "B" "A", roleSource "A" "B"]).raw.models := by
  intro horder
  have hvalues := horder.map fun m => m.fields.map RawField.enumValues
  revert hvalues
  decide +kernel

end SchemaTypes.Prisma
