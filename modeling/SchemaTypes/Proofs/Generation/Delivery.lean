import SchemaTypes.Proofs.Generation.Places
import SchemaTypes.Proofs.Generation.Verification

/-!
# Handing documents over

A run hands the documents of its output to a writer in order, until one of them is not stored. So a writer,
whatever it does, stores a first part of the documents; the next one, if there is one, is the last that it
gets, and what it says of it ends the run. A run that has no output, or only shows it, hands nothing over. What
it shows is what a writer to memory would hold, since the text of the path of a document tells its path.

Results:
* `Writer.exists_stores`, `writeAll_append`: the first part, and what follows it.
* `writeAll_toMemory`, `textsByPath_eq`: what is held in memory, and what is shown.
* `delivery_exact`: the calls of the writer, its state and the result of a run.
-/

namespace SchemaTypes

variable {σ : Type}

/-! ## Writers -/

namespace Writer

/-- The writer that also keeps a record of its calls. -/
def recording (w : Writer σ) : Writer (σ × List Document) where
  write held path content :=
    let (state, outcome) := w.write held.1 path content
    ((state, held.2 ++ [⟨path, content⟩]), outcome)

/-- The writer stores the documents, one after the other. -/
inductive Stores (w : Writer σ) : σ → List Document → σ → Prop
  | nil {state : σ} : Stores w state [] state
  | cons {state next final : σ} {d : Document} {ds : List Document}
      (hd : w.write state d.path d.content = (next, .stored)) (hds : Stores w next ds final) :
      Stores w state (d :: ds) final

/-- What is said about a document that is not stored. -/
def reasonText : Option String → String
  | none | some "" => unknownReason
  | some reason => reason

variable {w : Writer σ} {state mid : σ} {stored rest ds : List Document}

/-- A writer stores a first part of the documents, and not the next one. -/
theorem exists_stores (w : Writer σ) (state : σ) (ds : List Document) :
    ∃ stored rest mid, ds = stored ++ rest ∧ w.Stores state stored mid ∧
      ∀ d ∈ rest.head?, (w.write mid d.path d.content).2 ≠ .stored := by
  induction ds generalizing state with
  | nil => exact ⟨[], [], state, rfl, .nil, by simp⟩
  | cons d ds ih =>
    rcases hwrite : w.write state d.path d.content with ⟨next, outcome⟩
    by_cases hstored : outcome = .stored
    · subst hstored
      obtain ⟨stored, rest, mid, rfl, hstores, hrest⟩ := ih next
      exact ⟨d :: stored, rest, mid, rfl, .cons hwrite hstores, hrest⟩
    · refine ⟨[], d :: ds, state, rfl, .nil, ?_⟩
      rintro _ ⟨⟩
      rwa [hwrite]

/-- A record of the calls does not change what a writer stores. -/
theorem Stores.recording (h : w.Stores state stored mid) (log : List Document) :
    w.recording.Stores (state, log) stored (mid, log ++ stored) := by
  induction h generalizing log with
  | nil => simpa using Stores.nil
  | @cons state next final d ds hd hds ih =>
    have hrecorded : w.recording.write (state, log) d.path d.content = ((next, log ++ [d]), .stored) := by
      simp [Writer.recording, hd]
    have hrest := ih (log ++ [d])
    rw [List.append_assoc] at hrest
    exact .cons hrecorded hrest

end Writer

/-! ## Runs of a writer -/

section Runs

variable {w : Writer σ} {state mid final : σ} {stored : List Document} {d : Document}

/-- Behind documents that are stored the writer goes on from its state there. -/
theorem writeAll_append (h : w.Stores state stored mid) (rest : List Document) :
    writeAll w state (stored ++ rest) =
      { writeAll w mid rest with written := stored ++ (writeAll w mid rest).written } := by
  induction h with
  | nil => rfl
  | cons hd _ ih => simp only [List.cons_append, writeAll, hd, ih]

theorem writeAll_of_stores (h : w.Stores state stored mid) :
    writeAll w state stored = { state := mid, written := stored, failure := none, broken := none } := by
  have happend := writeAll_append h []
  simpa [writeAll] using happend

/-- The first document that fails ends the run. -/
theorem writeAll_of_failed {reason : Option String} (h : w.Stores state stored mid)
    (hd : w.write mid d.path d.content = (final, .failed reason)) (rest : List Document) :
    writeAll w state (stored ++ d :: rest) =
      { state := final, written := stored, failure := some (d, Writer.reasonText reason)
        broken := none } := by
  rw [writeAll_append h]
  simp only [writeAll, hd, List.append_nil]
  rfl

/-- A writer that breaks off ends the run. -/
theorem writeAll_of_broken {fault : FileTree.PathFault} (h : w.Stores state stored mid)
    (hd : w.write mid d.path d.content = (final, .broken fault)) (rest : List Document) :
    writeAll w state (stored ++ d :: rest) =
      { state := final, written := stored, failure := none, broken := some fault } := by
  rw [writeAll_append h]
  simp only [writeAll, hd, List.append_nil]

end Runs

/-! ## Documents in memory -/

/-- A document by the text of its path. -/
def Document.byText (d : Document) : String × String :=
  (d.path.toString, d.content)

/-- The documents that are held in memory after some more. -/
def heldAfter (held ds : List Document) : List Document :=
  ds.foldl (fun held d => Writer.putDocument d.path d.content held) held

section Memory

variable {path : Path} {content : String} {held ds : List Document}

/-- A writer to memory stores every document. -/
theorem stores_toMemory (held ds : List Document) : Writer.toMemory.Stores held ds (heldAfter held ds) := by
  induction ds generalizing held with
  | nil => exact .nil
  | cons d ds ih => exact .cons rfl (ih _)

theorem forall_mem_putDocument (hpath : path.IsCanonical) (hheld : ∀ d ∈ held, d.path.IsCanonical) :
    ∀ d ∈ Writer.putDocument path content held, d.path.IsCanonical := by
  induction held with
  | nil => simpa [Writer.putDocument] using hpath
  | cons first held ih =>
    rw [List.forall_mem_cons] at hheld
    rw [Writer.putDocument]
    split
    · exact List.forall_mem_cons.mpr hheld
    · exact List.forall_mem_cons.mpr ⟨hheld.1, ih hheld.2⟩

/-- It does not matter whether a document is found by its path or by the text of it. -/
theorem putText_byText (hpath : path.IsCanonical) (hheld : ∀ d ∈ held, d.path.IsCanonical) :
    putText path.toString content (held.map Document.byText) =
      (Writer.putDocument path content held).map Document.byText := by
  induction held with
  | nil => rfl
  | cons first held ih =>
    rw [List.forall_mem_cons] at hheld
    have hsame := Path.toString_inj_of_isCanonical hheld.1 hpath
    rw [List.map_cons, Document.byText, putText, Writer.putDocument]
    by_cases heq : first.path = path
    · rw [if_pos heq, if_pos (hsame.mpr heq)]
      rfl
    · rw [if_neg heq, if_neg (mt hsame.mp heq), ih hheld.2]
      rfl

/-- What is shown of documents is what would be held in memory. -/
theorem textsByPath_eq (h : ∀ d ∈ ds, d.path.IsCanonical) :
    textsByPath ds = (heldAfter [] ds).map Document.byText := by
  suffices hfold : ∀ held : List Document, (∀ d ∈ held, d.path.IsCanonical) →
      ds.foldl (fun texts d => putText d.path.toString d.content texts) (held.map Document.byText) =
        (heldAfter held ds).map Document.byText from hfold [] (by simp)
  induction ds with
  | nil => exact fun _ _ => rfl
  | cons d ds ih =>
    rw [List.forall_mem_cons] at h
    intro held hheld
    rw [List.foldl_cons, putText_byText h.1 hheld]
    exact ih h.2 _ (forall_mem_putDocument h.1 hheld)

end Memory

/-! ## The paths of documents -/

variable {ws : Workspace} {settings : Settings} {input : Input} {raw : RawSchema} {output : Output}

theorem isCanonical_combinedPath {path : Path} (h : path.IsCanonical) : (combinedPath path).IsCanonical := by
  unfold combinedPath
  split
  · exact h
  · exact h.joinText _

/-- Documents stand at canonical paths if they are put below one. -/
theorem Output.isCanonical_path (h : Output.ofRaw settings raw = .ok output)
    (hpath : settings.outputPath.IsCanonical) : ∀ d ∈ output.documents, d.path.IsCanonical := by
  cases hmode : settings.outputMode with
  | combined =>
    rw [combined_of_ofRaw h hmode, List.forall_mem_singleton]
    exact isCanonical_combinedPath hpath
  | perModel =>
    obtain ⟨documents, -, hdocuments⟩ := perModel_of_ofRaw h hmode
    rw [hdocuments, List.forall_mem_map]
    exact fun d _ => hpath.joinText d.1

theorem Output.isCanonical_path_of_build (h : Output.build ws settings input = .ok output)
    (hpath : settings.outputPath.IsCanonical) : ∀ d ∈ output.documents, d.path.IsCanonical := by
  obtain ⟨raw, -, hraw⟩ := bind_eq_ok_iff.mp h
  exact Output.isCanonical_path hraw hpath

/-! ## Runs -/

/-- What becomes of an output that is handed to a writer: the calls of the writer, its state afterwards and the
result of the run. Either every document is stored, or there is one that is not. The writer does not get
those behind it, and unless the writer breaks off the result tells of those before it and of this one. -/
inductive Writer.Delivers (w : Writer σ) (state : σ) (output : Output) :
    List Document → σ → Except Problem GenerationResult → Prop
  | complete {final : σ} (h : w.Stores state output.documents final) :
      Delivers w state output output.documents final
        (.ok { GenerationResult.ofOutput output with
          written := output.documents.map fun d => d.path.toString })
  | failed {stored rest : List Document} {d : Document} {mid final : σ} {reason : Option String}
      (hsplit : output.documents = stored ++ d :: rest) (h : w.Stores state stored mid)
      (hd : w.write mid d.path d.content = (final, .failed reason)) :
      Delivers w state output (stored ++ [d]) final
        (.ok { GenerationResult.ofOutput output with
          isOk := false
          written := stored.map fun d => d.path.toString
          error := some
            { code := .outputUnwritable, stage := .write, path := some d.path.toString
              message := "Failed to write " ++ d.path.toString ++ ": " ++ Writer.reasonText reason } })
  | broken {stored rest : List Document} {d : Document} {mid final : σ} {fault : FileTree.PathFault}
      (hsplit : output.documents = stored ++ d :: rest) (h : w.Stores state stored mid)
      (hd : w.write mid d.path d.content = (final, .broken fault)) :
      Delivers w state output (stored ++ [d]) final (.error (.path fault))

theorem generate_write (h : Output.build ws settings input = .ok output) (w : Writer σ) (state : σ) :
    generate ws settings input (.write w) state =
      (GenerationResult.ofWriting? output (writeAll w state output.documents),
        (writeAll w state output.documents).state) := by
  rw [generate, h]

/-- A run with an output hands its documents over. -/
theorem generate_delivers (h : Output.build ws settings input = .ok output) (w : Writer σ) (state : σ) :
    ∃ calls final result, w.Delivers state output calls final result ∧
      generate ws settings input (.write w) state = (result, final) ∧
      generate ws settings input (.write w.recording) (state, []) = (result, (final, calls)) := by
  obtain ⟨stored, rest, mid, hsplit, hstores, hrest⟩ := Writer.exists_stores w state output.documents
  have hrecorded := hstores.recording []
  rw [List.nil_append] at hrecorded
  -- The record does not change what is stored, so both runs come to the same document.
  rw [generate_write h, generate_write h]
  cases rest with
  | nil =>
    rw [List.append_nil] at hsplit
    subst hsplit
    rw [writeAll_of_stores hstores, writeAll_of_stores hrecorded]
    exact ⟨_, _, _, .complete hstores, rfl, rfl⟩
  | cons d rest =>
    have hnot := hrest d rfl
    rcases hwrite : w.write mid d.path d.content with ⟨final, outcome⟩
    have hcall : w.recording.write (mid, stored) d.path d.content =
        ((final, stored ++ [d]), outcome) := by
      simp [Writer.recording, hwrite]
    rw [hsplit]
    cases outcome with
    | stored => simp [hwrite] at hnot
    | failed reason =>
      rw [writeAll_of_failed hstores hwrite, writeAll_of_failed hrecorded hcall]
      exact ⟨_, _, _, .failed hsplit hstores hwrite, rfl, rfl⟩
    | broken fault =>
      rw [writeAll_of_broken hstores hwrite, writeAll_of_broken hrecorded hcall]
      exact ⟨_, _, _, .broken hsplit hstores hwrite, rfl, rfl⟩

/-- What a run does with a writer. Without an output, or if the output is only shown, the writer gets nothing.
Otherwise it gets the documents in order up to the first one that is not stored. With an output path that a text
spells, what is shown are the documents that a writer to memory holds after the same run. -/
theorem delivery_exact (ws : Workspace) (settings : Settings) (input : Input) (w : Writer σ) (state : σ) :
    (∀ problem, Output.build ws settings input = .error problem →
      (generate ws settings input (.write w.recording) (state, [])).2 = (state, [])) ∧
    (generate ws settings input .dryRun (state, ([] : List Document))).2 = (state, []) ∧
    (∀ output, Output.build ws settings input = .ok output →
      ∃ calls final result, w.Delivers state output calls final result ∧
        generate ws settings input (.write w) state = (result, final) ∧
        generate ws settings input (.write w.recording) (state, []) = (result, (final, calls))) ∧
    (∀ output, Output.build ws settings input = .ok output →
      (∃ text, settings.outputPath = Path.ofString text) →
        ∃ held, generate ws settings input (.write Writer.toMemory) [] =
            (.ok { GenerationResult.ofOutput output with
              written := output.documents.map fun d => d.path.toString }, held) ∧
          generate ws settings input .dryRun state =
            (.ok { GenerationResult.ofOutput output with
              documents := held.map fun d => (d.path.toString, d.content) }, state)) := by
  refine ⟨fun problem h => ?_, ?_, fun output h => generate_delivers h w state, ?_⟩
  · rw [generate, h]
    cases problem <;> rfl
  · rw [generate]
    rcases Output.build ws settings input with (_ | _) | _ <;> rfl
  · rintro output h ⟨text, htext⟩
    have hcanonical := Output.isCanonical_path_of_build h (htext ▸ Path.isCanonical_ofString text)
    refine ⟨heldAfter [] output.documents, ?_, ?_⟩
    · rw [generate_write h, writeAll_of_stores (stores_toMemory [] output.documents)]
      rfl
    · rw [generate, h]
      dsimp only
      rw [GenerationResult.ofDryRun, textsByPath_eq hcanonical]
      rfl

/-- The run for two models with a writer that fails at the second document, and the same run to be shown. -/
theorem delivery_exact_failingAt :
    ∃ (output : Output) (calls held : List Document) (result : GenerationResult) (final : ℕ),
      (Writer.failingAt 2 none).Delivers 0 output calls final (.ok result) ∧
      calls.map (·.path.toString) = ["types/User.ts", "types/Post.ts"] ∧
      result.isOk = false ∧ result.written = ["types/User.ts"] ∧
      (generate emptyWorkspace perModelSettings (.given (namesSchema ["User", "Post"])) .dryRun 0).1 =
        .ok { GenerationResult.ofOutput output with
          documents := held.map fun d => (d.path.toString, d.content) } ∧
      held.map (·.path.toString) =
        ["types/User.ts", "types/Post.ts", "types/enums.ts", "types/index.ts"] := by
  obtain ⟨hnone, -, hwriter, hshown⟩ := delivery_exact emptyWorkspace perModelSettings
    (.given (namesSchema ["User", "Post"])) (Writer.failingAt 2 none) 0
  have hpath : ∃ text, perModelSettings.outputPath = Path.ofString text := ⟨"types", by decide⟩
  have hrecorded : (generate emptyWorkspace perModelSettings (.given (namesSchema ["User", "Post"]))
      (.write (Writer.failingAt 2 none).recording) (0, [])).2.2.map (·.path.toString) =
        ["types/User.ts", "types/Post.ts"] := by decide +kernel
  have hresult : (generate emptyWorkspace perModelSettings (.given (namesSchema ["User", "Post"]))
      (.write (Writer.failingAt 2 none)) 0).1.toOption.map (fun result => (result.isOk, result.written)) =
        some (false, ["types/User.ts"]) := by decide +kernel
  have hmemory : (generate emptyWorkspace perModelSettings (.given (namesSchema ["User", "Post"]))
      (.write Writer.toMemory) []).2.map (·.path.toString) =
        ["types/User.ts", "types/Post.ts", "types/enums.ts", "types/index.ts"] := by decide +kernel
  cases hbuild : Output.build emptyWorkspace perModelSettings (.given (namesSchema ["User", "Post"])) with
  | error problem => simp [hnone problem hbuild] at hrecorded
  | ok output =>
    obtain ⟨calls, final, result, hdelivers, hrun, hrecording⟩ := hwriter output hbuild
    obtain ⟨held, hheld, hdryRun⟩ := hshown output hbuild hpath
    rw [hrecording] at hrecorded
    rw [hrun] at hresult
    rw [hheld] at hmemory
    cases result with
    | error problem => simp [Except.toOption] at hresult
    | ok result =>
      simp only [Except.toOption, Option.map_some, Option.some.injEq, Prod.mk.injEq] at hresult
      exact ⟨output, calls, held, result, final, hdelivers, hrecorded, hresult.1, hresult.2,
        congrArg Prod.fst hdryRun, hmemory⟩

end SchemaTypes
