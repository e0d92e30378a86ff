import SchemaTypes.Proofs.Generation.Places
import SchemaTypes.Text.Lower

/-!
# File names in small letters

A file system may take names that differ only in the case of their letters for one. The check of reserved names
is made with this in mind. It reads the names with ASCII in small letters, which is enough: no other letters
make a text `enums` or `index`. But it is a check of single names, and two models may have names that differ
only in case.

Results:
* `isReserved_iff`: the reserved names are those whose files would take the place of the other two documents.
* `fileNames_nodup_iff`: what the check rules out, and what it leaves.
-/

namespace SchemaTypes.Declaration

open Text

variable {endsWord : List Char → List Char → Bool}

theorem toLower_fileName (name : String) : (fileName name).toLower = fileName name.toLower := by
  rw [← String.toList_inj, toList_fileName, toList_toLower, toList_fileName, toList_toLower,
    List.map_append]
  rfl

/-- A name is reserved if its file in small letters has the name of one of the other two. -/
theorem isReserved_iff (endsWord : List Char → List Char → Bool) (name : String) :
    isReserved name = true ↔
      lowerCase endsWord (fileName name) ∈ [enumsModule, indexModule].map fileName := by
  have hfile (module : String) (hascii : ∀ c ∈ (fileName module).toList, c.toNat < 0x80 ∧ c ≠ 'k') :
      lowerCase endsWord (fileName name) = fileName module ↔ name.toLower = module := by
    rw [lowerCase_eq_iff hascii, toLower_fileName, fileName_inj]
  simp only [isReserved, List.contains_iff_mem, List.map_cons, List.map_nil, List.mem_cons,
    List.not_mem_nil, or_false, hfile enumsModule (forall_mem_of_all (by decide)),
    hfile indexModule (forall_mem_of_all (by decide))]

variable {models : List Model} {enums : List EnumDefinition} {style : Style}
  {documents : List (String × String)}

/-- The documents of a batch in small letters: those of models and the two others, which stay. -/
theorem lowerNames_of_perModel (h : perModel models enums style = .ok documents) :
    (documents.map fun d => lowerCase endsWord d.1) =
      (models.map fun m => lowerCase endsWord (fileName m.name)) ++ [enumsModule, indexModule].map fileName := by
  have hstays (module : String) (hascii : ∀ c ∈ (fileName module).toList, c.toNat < 0x80 ∧ c ≠ 'k')
      (hsmall : (fileName module).toLower = fileName module) :
      lowerCase endsWord (fileName module) = fileName module :=
    (lowerCase_eq_iff hascii).mpr hsmall
  have henums := hstays enumsModule (forall_mem_of_all (by decide)) (by decide +kernel)
  have hindex := hstays indexModule (forall_mem_of_all (by decide)) (by decide +kernel)
  simp [(perModel_ok_iff.mp h).2, Function.comp_def, henums, hindex]

/-- However letters above ASCII are written, the check passes exactly if no model would take the file of the
other two documents. Then the names of all files differ in small letters exactly if those of the models do. -/
theorem fileNames_nodup_iff (endsWord : List Char → List Char → Bool) (models : List Model)
    (enums : List EnumDefinition) (style : Style) :
    ((∃ documents, perModel models enums style = .ok documents) ↔
      ∀ m ∈ models, lowerCase endsWord (fileName m.name) ∉ [enumsModule, indexModule].map fileName) ∧
    ∀ documents, perModel models enums style = .ok documents →
      ((documents.map fun d => lowerCase endsWord d.1).Nodup ↔
        (models.map fun m => lowerCase endsWord (fileName m.name)).Nodup) := by
  have hfree (m : Model) : isReserved m.name = false ↔
      lowerCase endsWord (fileName m.name) ∉ [enumsModule, indexModule].map fileName := by
    rw [← isReserved_iff endsWord m.name, Bool.not_eq_true]
  refine ⟨?_, fun documents h => ?_⟩
  · simp only [perModel_ok_iff, hfree, exists_and_left, exists_eq, and_true]
  · have hothers := (perModel_ok_iff.mp h).1
    have hapart : ∀ name ∈ models.map fun m => lowerCase endsWord (fileName m.name),
        ∀ other ∈ [enumsModule, indexModule].map fileName, name ≠ other := by
      intro name hname other hother heq
      obtain ⟨m, hm, rfl⟩ := List.mem_map.mp hname
      exact (hfree m).mp (hothers m hm) (heq ▸ hother)
    have hdistinct : ([enumsModule, indexModule].map fileName).Nodup := by decide
    rw [lowerNames_of_perModel h, List.nodup_append]
    exact ⟨fun hall => hall.1, fun hmodels => ⟨hmodels, hdistinct, hapart⟩⟩

/-- A model that differs from others in its name alone. -/
def namedModel (name : String) : Model :=
  { name, fields := [], sourceKind := .prisma, sourcePath := none, description := none }

/-- The check for models whose names differ in more than case, with every capital sigma at the end of a word. -/
theorem fileNames_nodup_iff_index :
    ∃ documents, perModel (["Indexes", "\u03A3"].map namedModel) [] {} = .ok documents ∧
      (documents.map fun d => lowerCase (fun _ _ => true) d.1).Nodup := by
  obtain ⟨hpasses, hnames⟩ :=
    fileNames_nodup_iff (fun _ _ => true) (["Indexes", "\u03A3"].map namedModel) [] {}
  obtain ⟨documents, hdocuments⟩ := hpasses.mpr (by decide +kernel)
  exact ⟨documents, hdocuments, (hnames documents hdocuments).mpr (by decide +kernel)⟩

/-- Two models whose names differ in case have files that do not differ otherwise. -/
theorem fileNames_of_user :
    (["User", "user"].map namedModel |>.map (·.name)).Nodup ∧
      ((perModel (["User", "user"].map namedModel) [] {}).toOption.map fun documents =>
        documents.map fun d => lowerCase (fun _ _ => true) d.1) =
        some ["user.ts", "user.ts", "enums.ts", "index.ts"] := by
  decide +kernel

end SchemaTypes.Declaration
