import SchemaTypes.Proofs.FileTree.Overwriting
import SchemaTypes.Proofs.Generation.Delivery

/-!
# Generation after a verification

A verification finds the documents in sync if each has a file and the file is read as the document. Then a
generation on the same tree writes every document over its file. No directory has to be made, so nothing can
fail, and nothing but these files changes.

A file is read with unified line ends, and a document is written as it stands. So a file with carriage returns
may be in sync and still change: it is in sync if it is the document up to its line ends, and it keeps its bytes
only if it is the document.

Results:
* `inSync_ofOutput_iff`, `exists_text_of_isCurrent`: what it means that documents are in sync.
* `stores_over`: writing documents over their files, by induction on the documents.
* `generate_isProper`: every generation leaves a tree as a file system keeps it.
* `generate_in_sync`: the generation after a verification that finds the documents in sync, and which files
  keep their bytes.
-/

namespace SchemaTypes

open FileTree Declaration

/-! ## The names of documents -/

/-- The path ends in a name, so it leads to something in the directory of its parent. -/
def Path.IsNamed (p : Path) : Prop :=
  ∃ above name, p = Path.child above name ∧ name ≠ ".."

theorem Path.isNamed_child_fileName (above : Path) (name : String) :
    (above.child (fileName name)).IsNamed := by
  refine ⟨above, fileName name, rfl, fun heq => ?_⟩
  have hlast := congrArg (fun s => s.toList.getLast?) heq
  simp [toList_fileName] at hlast

theorem Path.isNamed_of_extension {p : Path} (h : p.extension = ".ts") : p.IsNamed := by
  obtain ⟨root, parts⟩ := p
  rcases List.eq_nil_or_concat parts with rfl | ⟨above, name, rfl⟩
  · exact absurd h (by simp [Path.extension, Path.name, Path.extensionOf])
  · rw [List.concat_eq_append] at h ⊢
    refine ⟨⟨root, above⟩, name, rfl, ?_⟩
    rintro rfl
    have hname : Path.name ⟨root, above ++ [".."]⟩ = ".." := by simp [Path.name]
    rw [Path.extension, hname] at h
    exact absurd h (by decide)

theorem Path.isNamed_combinedPath (output : Path) : (combinedPath output).IsNamed := by
  unfold combinedPath
  split
  · rename_i hextension
    exact Path.isNamed_of_extension (beq_iff_eq.mp hextension)
  · rw [joinText_fileName]
    exact Path.isNamed_child_fileName _ _

variable {ws : Workspace} {settings : Settings} {input : Input} {output : Output} {tree later : FileTree}
  {d : Document} {documents : List Document}

theorem Output.isNamed_path (h : Output.build ws settings input = .ok output) :
    ∀ d ∈ output.documents, d.path.IsNamed := by
  obtain ⟨raw, -, h⟩ := bind_eq_ok_iff.mp h
  cases hmode : settings.outputMode with
  | combined =>
    rw [combined_of_ofRaw h hmode, List.forall_mem_singleton]
    exact Path.isNamed_combinedPath settings.outputPath
  | perModel =>
    have hpaths : ∀ p ∈ output.documents.map (·.path), p.IsNamed := by
      rw [paths_of_perModel h hmode, List.forall_mem_map]
      exact fun name _ => Path.isNamed_child_fileName _ _
    exact List.forall_mem_map.mp hpaths

/-! ## Documents in sync -/

/-- The file of a document that is current: it holds a text that is the document up to its line ends. -/
theorem exists_text_of_isCurrent (h : d.isCurrent tree = true) :
    ∃ place text, tree.place d.path = .ok place ∧ tree.node? place = some (.file (String.toUTF8 text)) ∧
      Text.unifyEnds text.toList = d.content.toList := by
  cases hplace : tree.place d.path with
  | error e =>
    simp [Document.isCurrent, readText, readBytes, FileTree.get, hplace, bind, Except.bind] at h
  | ok place =>
    cases hnode : tree.node? place with
    | none =>
      simp [Document.isCurrent, readText, readBytes, FileTree.get, hplace, hnode, bind, Except.bind, throw, throwThe,
        MonadExceptOf.throw] at h
    | some node =>
      cases node with
      | directory =>
        simp [Document.isCurrent, readText, readBytes, get_of_place hplace hnode, bind, Except.bind, throw,
          throwThe, MonadExceptOf.throw] at h
      | file bytes =>
        simp only [Document.isCurrent, readText, readBytes_of_file hplace hnode] at h
        cases hbytes : String.fromUTF8? bytes with
        | none => simp [decode, hbytes] at h
        | some text =>
          have hutf8 : bytes = text.toUTF8 := by
            rw [String.fromUTF8?] at hbytes
            split at hbytes
            · obtain rfl := Option.some.inj hbytes
              rfl
            · simp at hbytes
          refine ⟨place, text, rfl, hutf8 ▸ hnode, ?_⟩
          simp only [decode, hbytes, Option.map_some, beq_iff_eq] at h
          rw [← h, String.toList_ofList]

theorem isFile_of_isCurrent (h : d.isCurrent tree = true) : tree.isFile d.path = true := by
  obtain ⟨place, text, hplace, hfile, -⟩ := exists_text_of_isCurrent h
  simp [FileTree.isFile, get_of_place hplace hfile]

/-- The documents of an output are in sync if every one is current. -/
theorem inSync_ofOutput_iff (tree : FileTree) (output : Output) :
    (VerificationResult.ofOutput tree output).inSync = true ↔
      ∀ d ∈ output.documents, d.isCurrent tree = true := by
  simp only [VerificationResult.inSync, VerificationResult.isOk, VerificationResult.ofOutput,
    List.partition_eq_filter_filter, Option.isNone_none, Bool.true_and, Bool.and_eq_true,
    List.isEmpty_iff, List.map_eq_nil_iff, List.filter_eq_nil_iff, List.mem_filter, Function.comp_apply]
  constructor
  · rintro ⟨hstale, hmissing⟩ d hd
    have hfile : tree.isFile d.path = true := by simpa using hmissing d hd
    simpa using hstale d ⟨hd, hfile⟩
  · intro hcurrent
    exact ⟨fun d hd => by simp [hcurrent d hd.1], fun d hd => by
      simp [isFile_of_isCurrent (hcurrent d hd)]⟩

/-- A verification that finds the documents in sync has found every one to be current. -/
theorem current_of_verify {v : VerificationResult} (h : verify ws settings input = .ok v)
    (hsync : v.inSync = true) :
    ∃ output, Output.build ws settings input = .ok output ∧
      ∀ d ∈ output.documents, d.isCurrent ws.tree = true := by
  unfold verify at h
  split at h
  · obtain rfl := Except.ok.inj h
    simp [VerificationResult.inSync, VerificationResult.isOk] at hsync
  · simp at h
  · rename_i output hbuild
    split at h
    · simp at h
    · obtain rfl := Except.ok.inj h
      exact ⟨output, hbuild, (inSync_ofOutput_iff ws.tree output).mp hsync⟩

/-! ## Writing documents over their files -/

/-- The document has a file in the tree. -/
def Document.HasFile (tree : FileTree) (d : Document) : Prop :=
  ∃ place bytes, tree.place d.path = .ok place ∧ tree.node? place = some (.file bytes)

/-- Behind a write over a file every document still has one, at its place. -/
theorem Document.HasFile.put {place : List String} {bytes : ByteArray}
    (hfile : tree.node? place = some (.file bytes)) (new : ByteArray) (h : d.HasFile tree) :
    d.HasFile (tree.put place (.file new)) ∧ (tree.put place (.file new)).place d.path = tree.place d.path := by
  obtain ⟨other, held, hother, hheld⟩ := h
  have hroot : place ≠ [] := by
    rintro rfl
    simp [node?] at hfile
  have hkeeps : KeepsDirectories tree (tree.put place (.file new)) :=
    put_keepsDirectories (by simp [hfile]) _
  have hleads := place_of_keeps hkeeps hother
  refine ⟨⟨other, ?_⟩, hleads.trans hother.symm⟩
  by_cases heq : other = place
  · exact ⟨new, hleads, by rw [heq, node?_put_self tree hroot]⟩
  · exact ⟨held, hleads, by rw [node?_put_of_ne tree heq, hheld]⟩

/-- Documents that have files are all stored, and nothing but these files changes. -/
theorem stores_over (htree : tree.IsProper) (hnamed : ∀ d ∈ documents, d.path.IsNamed)
    (hfiles : ∀ d ∈ documents, d.HasFile tree) :
    ∃ later, Writer.toFiles.Stores tree documents later ∧
      ∀ place, (∀ d ∈ documents, tree.place d.path ≠ .ok place) → later.node? place = tree.node? place := by
  induction documents generalizing tree with
  | nil => exact ⟨tree, .nil, fun _ _ => rfl⟩
  | cons d documents ih =>
    rw [List.forall_mem_cons] at hnamed hfiles
    obtain ⟨place, bytes, hplace, hfile⟩ := hfiles.1
    obtain ⟨above, name, hpath, hname⟩ := hnamed.1
    have hwritten : tree.writeText d.path d.content = ⟨tree.put place (.file d.content.toUTF8), none⟩ := by
      rw [hpath] at hplace ⊢
      exact writeText_of_file htree hname hplace hfile d.content
    have hproper := writeText_isProper htree d.path d.content
    rw [hwritten] at hproper
    -- The other documents keep their files, and their paths lead where they led.
    have hput := fun e he => (hfiles.2 e he).put hfile d.content.toUTF8
    obtain ⟨later, hstores, hothers⟩ := ih hproper hnamed.2 fun e he => (hput e he).1
    have hwrite : Writer.toFiles.write tree d.path d.content =
        (tree.put place (.file d.content.toUTF8), .stored) := by
      simp only [Writer.toFiles, hwritten]
    refine ⟨later, .cons hwrite hstores, fun other hother => ?_⟩
    rw [List.forall_mem_cons] at hother
    have hne : other ≠ place := by
      rintro rfl
      exact hother.1 hplace
    have hrest : ∀ e ∈ documents, (tree.put place (.file d.content.toUTF8)).place e.path ≠ .ok other :=
      fun e he => (hput e he).2 ▸ hother.2 e he
    rw [hothers other hrest, node?_put_of_ne tree hne]

theorem writeAll_isProper (htree : tree.IsProper) (documents : List Document) :
    (writeAll Writer.toFiles tree documents).state.IsProper := by
  induction documents generalizing tree with
  | nil => exact htree
  | cons d documents ih =>
    have hnext : (Writer.toFiles.write tree d.path d.content).1.IsProper :=
      writeText_isProper htree d.path d.content
    rcases hwrite : Writer.toFiles.write tree d.path d.content with ⟨next, outcome⟩
    rw [hwrite] at hnext
    simp only [writeAll, hwrite]
    cases outcome with
    | stored => exact ih hnext
    | failed reason => exact hnext
    | broken fault => exact hnext

/-- A generation keeps a tree proper, wherever it ends. -/
theorem generate_isProper (htree : tree.IsProper) (ws : Workspace) (settings : Settings) (input : Input) :
    (generate ws settings input (.write Writer.toFiles) tree).2.IsProper := by
  unfold generate
  split
  · exact htree
  · exact htree
  · exact writeAll_isProper htree _

/-! ## Generation -/

/-- Documents that were current before they were written are read as they are: those at one place are read
from one file, so they do not differ. -/
theorem Written.readBytes (h : Written tree later documents)
    (hcurrent : ∀ d ∈ documents, d.isCurrent tree = true) (hd : d ∈ documents) :
    later.readBytes d.path = .ok d.content.toUTF8 := by
  obtain ⟨place, hplace, e, he, heplace, hfile⟩ := h.file d hd
  obtain ⟨dPlace, text, hdPlace, htext, hd⟩ := exists_text_of_isCurrent (hcurrent d hd)
  obtain ⟨ePlace, other, hePlace, hother, he⟩ := exists_text_of_isCurrent (hcurrent e he)
  obtain rfl : dPlace = place := by simpa [hplace] using (place_of_keeps h.keeps hdPlace).symm
  obtain rfl : ePlace = dPlace := by simpa [heplace] using (place_of_keeps h.keeps hePlace).symm
  obtain rfl : text = other := by
    rw [htext, Option.some.injEq, Node.file.injEq] at hother
    exact String.toByteArray_inj.mp hother
  rw [readBytes_of_file hplace hfile, String.toList_inj.mp (hd.symm.trans he)]

/-- If a verification finds the documents in sync, a generation on the same tree succeeds, writes every document
and changes nothing else. A document keeps the bytes of its file exactly if the file holds no carriage return. -/
theorem generate_in_sync {v : VerificationResult} (htree : ws.tree.IsProper)
    (h : verify ws settings input = .ok v) (hsync : v.inSync = true) :
    ∃ output r later, Output.build ws settings input = .ok output ∧
      generate ws settings input (.write Writer.toFiles) ws.tree = (.ok r, later) ∧
      r.isOk = true ∧ r.written = output.documents.map (·.path.toString) ∧
      (∀ d ∈ output.documents, ∃ text : String, ws.tree.readBytes d.path = .ok text.toUTF8 ∧
        later.readBytes d.path = .ok d.content.toUTF8 ∧
        (later.readBytes d.path = ws.tree.readBytes d.path ↔ '\r' ∉ text.toList)) ∧
      ∀ place, (∀ d ∈ output.documents, ws.tree.place d.path ≠ .ok place) →
        later.node? place = ws.tree.node? place := by
  obtain ⟨output, hbuild, hcurrent⟩ := current_of_verify h hsync
  have hfiles : ∀ d ∈ output.documents, d.HasFile ws.tree := by
    intro d hd
    obtain ⟨place, text, hplace, hfile, -⟩ := exists_text_of_isCurrent (hcurrent d hd)
    exact ⟨place, _, hplace, hfile⟩
  obtain ⟨later, hstores, hothers⟩ := stores_over htree (Output.isNamed_path hbuild) hfiles
  have hrun := writeAll_of_stores hstores
  have hwritten := writeAll_written ws.tree output.documents (by rw [hrun]) (by rw [hrun])
  rw [hrun] at hwritten
  have hgenerate := generate_write hbuild Writer.toFiles ws.tree
  rw [hrun] at hgenerate
  refine ⟨output, _, later, hbuild, hgenerate, rfl, rfl, fun d hd => ?_, hothers⟩
  obtain ⟨place, text, hplace, hfile, htext⟩ := exists_text_of_isCurrent (hcurrent d hd)
  have hbefore := readBytes_of_file hplace hfile
  have hafter := hwritten.readBytes hcurrent hd
  have hbytes : d.content.toUTF8 = text.toUTF8 ↔ d.content = text := String.toByteArray_inj
  refine ⟨text, hbefore, hafter, ?_⟩
  calc later.readBytes d.path = ws.tree.readBytes d.path
    _ ↔ d.content = text := by rw [hbefore, hafter, Except.ok.injEq, hbytes]
    _ ↔ Text.unifyEnds text.toList = text.toList := by rw [htext, String.toList_inj]
    _ ↔ '\r' ∉ text.toList := Text.unifyEnds_eq_self_iff text.toList

/-- A workspace with one file, in the place of the document. -/
def typesWorkspace (text : String) : Workspace :=
  { tree := (emptyWorkspace.tree.writeText typesSettings.outputPath text).tree }

theorem typesWorkspace_isProper (text : String) : (typesWorkspace text).tree.IsProper :=
  writeText_isProper (isProper_empty ["work"]) _ _

/-- The document for one model, with carriage returns. -/
def returnsText : String :=
  "/**\r\n * AUTO-GENERATED by typebridge\r\n * Do not edit manually\r\n */\r\n\r\n" ++
    "export interface User \x7b\r\n\x7d\r\n"

/-- The document with carriage returns is in sync, and a generation writes it again. -/
theorem generate_in_sync_returns :
    ∃ v r later, (typesWorkspace returnsText).tree.IsProper ∧
      verify (typesWorkspace returnsText) typesSettings (.given (namesSchema ["User"])) = .ok v ∧
      v.inSync = true ∧
      generate (typesWorkspace returnsText) typesSettings (.given (namesSchema ["User"]))
        (.write Writer.toFiles) (typesWorkspace returnsText).tree = (.ok r, later) ∧ r.isOk = true := by
  have hrun : (verify (typesWorkspace returnsText) typesSettings
      (.given (namesSchema ["User"]))).toOption = some {} := by decide +kernel
  have hverify := eq_ok_of_toOption hrun
  have hproper := typesWorkspace_isProper returnsText
  obtain ⟨_, r, later, -, hgenerate, hok, -⟩ := generate_in_sync hproper hverify rfl
  exact ⟨_, r, later, hproper, hverify, rfl, hgenerate, hok⟩

/-- A generation may change the bytes of a document that is in sync. -/
theorem generate_in_sync_changes :
    let ws := typesWorkspace returnsText
    let later := (generate ws typesSettings (.given (namesSchema ["User"])) (.write Writer.toFiles) ws.tree).2
    ((verify ws typesSettings (.given (namesSchema ["User"]))).toOption.map fun v => (v.isOk, v.inSync)) =
        some (true, true) ∧
      (later.readBytes typesSettings.outputPath).toOption ≠ (ws.tree.readBytes typesSettings.outputPath).toOption := by
  decide +kernel

end SchemaTypes
