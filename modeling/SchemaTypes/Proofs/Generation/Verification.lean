import SchemaTypes.Generation.Result
import SchemaTypes.Proofs.FileTree.Writing

/-!
# Verification after a generation

A generation that succeeds leaves a file at the path of each document. A verification that follows
finds all of them, but reading is not the inverse of writing: a carriage return in a document is read
as a line feed, and of several documents whose paths lead to the same place only the last one is
there. These are the only two reasons for which such a verification reports a document.

Results:
* `writeAll_written`: what the writer of documents leaves in a tree, by induction on the documents.
* `isCurrent_iff`: when the file of a document has its text.
* `verify_after_generate`: when the documents are in sync right after they were written.
-/

namespace SchemaTypes

open FileTree

/-! ## Documents in a tree -/

/-- What writing documents leaves behind: at the place of each the last one written there, and
everything at other places as it was. -/
structure Written (tree later : FileTree) (documents : List Document) : Prop where
  keeps : KeepsDirectories tree later
  file : ∀ d ∈ documents, ∃ place, later.place d.path = .ok place ∧ ∃ e ∈ documents,
    later.place e.path = .ok place ∧ later.node? place = some (.file e.content.toUTF8)
  others : ∀ place node, (∀ d ∈ documents, later.place d.path ≠ .ok place) →
    tree.node? place = some node → later.node? place = some node

variable {tree next later : FileTree} {d : Document} {documents : List Document}

theorem Written.nil (tree : FileTree) : Written tree tree [] :=
  ⟨KeepsDirectories.refl tree, by simp, fun _ _ _ h => h⟩

/-- One more document, written before the others. -/
theorem Written.cons {place : List String}
    (hfirst : Stored tree next d.path d.content.toUTF8 place) (hrest : Written next later documents) :
    Written tree later (d :: documents) := by
  have hleads : later.place d.path = .ok place := place_of_keeps hrest.keeps hfirst.leads
  refine ⟨hfirst.keeps.trans hrest.keeps, ?_, ?_⟩
  · intro other hother
    rcases List.mem_cons.mp hother with rfl | hother
    · refine ⟨place, hleads, ?_⟩
      -- A later document at the same place has overwritten this one.
      by_cases hagain : ∃ e ∈ documents, later.place e.path = .ok place
      · obtain ⟨e, he, heplace⟩ := hagain
        obtain ⟨place', hplace', f, hf, hfplace, hfile⟩ := hrest.file e he
        obtain rfl : place = place' := by simpa [heplace] using hplace'
        exact ⟨f, List.mem_cons_of_mem _ hf, hfplace, hfile⟩
      · refine ⟨other, List.mem_cons_self, hleads, hrest.others place _ ?_ hfirst.file⟩
        exact fun e he heplace => hagain ⟨e, he, heplace⟩
    · obtain ⟨place', hplace', e, he, heplace, hfile⟩ := hrest.file other hother
      exact ⟨place', hplace', e, List.mem_cons_of_mem _ he, heplace, hfile⟩
  · intro other node hnone hnode
    have hne : other ≠ place := by
      rintro rfl
      exact hnone d List.mem_cons_self hleads
    exact hrest.others other node (fun e he => hnone e (List.mem_cons_of_mem _ he))
      (hfirst.others other node hne hnode)

/-- What a writer to files that stored a document left behind. -/
theorem write_toFiles_stored {path : Path} {content : String}
    (h : Writer.toFiles.write tree path content = (later, .stored)) :
    ∃ place, Stored tree later path content.toUTF8 place := by
  simp only [Writer.toFiles, Prod.mk.injEq] at h
  obtain ⟨rfl, houtcome⟩ := h
  split at houtcome
  · exact writeText_stored ‹_›
  · simp at houtcome
  · simp at houtcome

theorem writeAll_written (tree : FileTree) (documents : List Document)
    (hfailure : (writeAll Writer.toFiles tree documents).failure = none)
    (hbroken : (writeAll Writer.toFiles tree documents).broken = none) :
    Written tree (writeAll Writer.toFiles tree documents).state documents := by
  induction documents generalizing tree with
  | nil => exact Written.nil tree
  | cons d documents ih =>
    rcases hwrite : Writer.toFiles.write tree d.path d.content with ⟨next, outcome⟩
    simp only [writeAll, hwrite] at hfailure hbroken ⊢
    cases outcome with
    | stored =>
      obtain ⟨place, hfirst⟩ := write_toFiles_stored hwrite
      exact Written.cons hfirst (ih next hfailure hbroken)
    | failed reason => simp at hfailure
    | broken fault => simp at hbroken

/-! ## Documents read back -/

/-- Whether the file of a document has its text, if it has the text of some document. -/
theorem isCurrent_iff {place : List String} {e : Document} (hplace : tree.place d.path = .ok place)
    (hfile : tree.node? place = some (.file e.content.toUTF8)) :
    d.isCurrent tree = true ↔ Text.unifyEnds e.content.toList = d.content.toList := by
  simp only [Document.isCurrent, readText_of_file hplace hfile, beq_iff_eq]
  rw [← String.toList_inj, String.toList_ofList]

/-- All documents are current exactly if none holds a carriage return and those at one place agree. -/
theorem Written.current_iff (h : Written tree later documents) :
    (∀ d ∈ documents, d.isCurrent later = true) ↔
      ∀ d ∈ documents, '\r' ∉ d.content.toList ∧
        ∀ e ∈ documents, later.place e.path = later.place d.path → e.content = d.content := by
  constructor
  · intro hcurrent d hd
    obtain ⟨place, hplace, f, hf, hfplace, hfile⟩ := h.file d hd
    have hread := (isCurrent_iff hplace hfile).mp (hcurrent d hd)
    refine ⟨hread ▸ Text.return_not_mem_unifyEnds _, fun e he hsame => ?_⟩
    have hother := (isCurrent_iff (hsame.trans hplace) hfile).mp (hcurrent e he)
    exact String.toList_inj.mp (hother.symm.trans hread)
  · intro hall d hd
    obtain ⟨place, hplace, f, hf, hfplace, hfile⟩ := h.file d hd
    have hsame := (hall d hd).2 f hf (hfplace.trans hplace.symm)
    rw [isCurrent_iff hplace hfile, hsame]
    exact Text.unifyEnds_of_no_return _ (hall d hd).1

/-! ## Verification -/

theorem Written.isFile (h : Written tree later documents) (hd : d ∈ documents) :
    later.isFile d.path = true := by
  obtain ⟨place, hplace, e, -, -, hfile⟩ := h.file d hd
  simp [FileTree.isFile, get_of_place hplace hfile]

theorem Written.lookFault? (h : Written tree later documents) (hd : d ∈ documents) :
    later.lookFault? d.path = none := by
  obtain ⟨place, hplace, e, -, -, hfile⟩ := h.file d hd
  simp [FileTree.lookFault?, get_of_place hplace hfile]

/-- A generation that succeeds has written its documents. -/
theorem written_of_generate {ws : Workspace} {settings : Settings} {input : Input}
    {r : GenerationResult}
    (h : generate ws settings input (.write Writer.toFiles) ws.tree = (.ok r, later))
    (hok : r.isOk = true) :
    ∃ output, Output.build ws settings input = .ok output ∧
      Written ws.tree later output.documents := by
  unfold generate at h
  split at h
  · simp only [Prod.mk.injEq, Except.ok.injEq] at h
    simp [← h.1] at hok
  · simp at h
  · rename_i output hbuild
    simp only [Prod.mk.injEq, GenerationResult.ofWriting?] at h
    obtain ⟨hresult, rfl⟩ := h
    refine ⟨output, hbuild, writeAll_written ws.tree output.documents ?_ ?_⟩
    all_goals split at hresult
    · simp at hresult
    · simp only [Except.ok.injEq] at hresult
      simpa [← hresult, GenerationResult.ofWriting] using hok
    · simp at hresult
    · assumption

/-- The result of a verification for documents that were written: those that are not current. -/
theorem verify_of_written {ws : Workspace} {settings : Settings} {input : Input} {output : Output}
    (hbuild : Output.build ws settings input = .ok output)
    (h : Written tree ws.tree output.documents) :
    verify ws settings input = .ok
      { stale := (output.documents.filter fun d => !d.isCurrent ws.tree).map fun d =>
          d.path.toString
        warnings := output.issues } := by
  have hlook : (output.documents.findSome? fun d => ws.tree.lookFault? d.path) = none := by
    rw [List.findSome?_eq_none_iff]
    exact fun d hd => h.lookFault? hd
  have hpresent : output.documents.filter (fun d => ws.tree.isFile d.path) = output.documents :=
    List.filter_eq_self.mpr fun d hd => h.isFile hd
  have habsent : output.documents.filter (fun d => !ws.tree.isFile d.path) = [] := by
    rw [List.filter_eq_nil_iff]
    intro d hd
    simp [h.isFile hd]
  simp only [verify, hbuild, hlook, VerificationResult.ofOutput, List.partition_eq_filter_filter,
    Function.comp_def, hpresent, habsent, List.map_nil]

/-! ## Runs with one model -/

/-- Settings that lead to one document in the current directory. -/
def typesSettings : Settings :=
  { sourceKind := .mongoose, schemaPath := ⟨"", ["models"]⟩, outputPath := ⟨"", ["types.ts"]⟩
    outputMode := .combined, includeComments := false, readonly := false, enumOrder := .insertion
    dateType := "Date", banner := none, includes := none, excludes := none, loader := .contract
    nodeExecutable := "node" }

/-- A schema of one model with one field that holds the given text. -/
def choiceSchema (value : String) : RawSchema :=
  { models := [{ name := "User", sourceKind := "mongoose"
                 fields := [{ name := some "role", enumValues := some [value] }] }] }

/-- A workspace with nothing in its directory. -/
def emptyWorkspace : Workspace := { tree := .empty ["work"] }

/-- The generation for a schema in the empty workspace. -/
def generateTypes (raw : RawSchema) : Except Problem GenerationResult × FileTree :=
  generate emptyWorkspace typesSettings (.given raw) (.write Writer.toFiles) emptyWorkspace.tree

/-- The verification for a schema right after its generation. -/
def verifyTypes (raw : RawSchema) : Except Problem VerificationResult :=
  verify { emptyWorkspace with tree := (generateTypes raw).2 } typesSettings (.given raw)

theorem eq_ok_of_toOption {α : Type} {x : Except Problem α} {a : α} (h : x.toOption = some a) :
    x = .ok a := by
  cases x with
  | error _ => simp [Except.toOption] at h
  | ok b => simpa [Except.toOption] using h

/-- The result of the generation for a schema of one model. -/
theorem generateTypes_eq {raw : RawSchema}
    (h : (generateTypes raw).1.toOption = some { written := ["types.ts"], modelCount := 1 }) :
    generateTypes raw =
      (.ok { written := ["types.ts"], modelCount := 1 }, (generateTypes raw).2) := by
  rw [← eq_ok_of_toOption h]

/-- After a successful generation a verification finds the file of every document. The documents are
in sync exactly if no text holds a carriage return and the documents at one place have one text. -/
theorem verify_after_generate {ws : Workspace} {settings : Settings} {raw : RawSchema}
    {r : GenerationResult} {tree : FileTree}
    (h : generate ws settings (.given raw) (.write Writer.toFiles) ws.tree = (.ok r, tree))
    (hok : r.isOk = true) :
    ∃ output v, Output.ofRaw settings raw = .ok output ∧
      verify { ws with tree } settings (.given raw) = .ok v ∧ v.isOk = true ∧ v.missing = [] ∧
      (v.inSync = true ↔ ∀ d ∈ output.documents, '\r' ∉ d.content.toList ∧
        ∀ e ∈ output.documents, tree.place e.path = tree.place d.path → e.content = d.content) := by
  obtain ⟨output, hbuild, hwritten⟩ := written_of_generate h hok
  have hagain : Output.build { ws with tree } settings (.given raw) = .ok output := hbuild
  refine ⟨output, _, hbuild, verify_of_written hagain hwritten, rfl, rfl, ?_⟩
  rw [← hwritten.current_iff]
  simp [VerificationResult.inSync, VerificationResult.isOk]

/-- The generation for a model without carriage returns, and the verification after it. -/
theorem verify_after_generate_choice : (generateTypes (choiceSchema "admin")).1.toOption =
      some { written := ["types.ts"], modelCount := 1 } ∧
    ∃ v, verifyTypes (choiceSchema "admin") = .ok v ∧ v.isOk = true ∧ v.missing = [] := by
  have hrun : (generateTypes (choiceSchema "admin")).1.toOption =
      some { written := ["types.ts"], modelCount := 1 } := by decide +kernel
  obtain ⟨_, v, -, hverify, hok, hmissing, -⟩ :=
    verify_after_generate (generateTypes_eq hrun) rfl
  exact ⟨hrun, v, hverify, hok, hmissing⟩

/-- Documents are not always in sync right after they were written. -/
theorem verify_after_generate_stale :
    ((generateTypes (choiceSchema "a\rb")).1.toOption.map fun r => r.isOk) = some true ∧
      ((verifyTypes (choiceSchema "a\rb")).toOption.map fun v => (v.isOk, v.inSync, v.stale)) =
        some (true, false, ["types.ts"]) := by
  decide +kernel

end SchemaTypes
