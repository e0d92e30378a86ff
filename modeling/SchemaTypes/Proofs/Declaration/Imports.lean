import SchemaTypes.Declaration.Document
import SchemaTypes.Proofs.Declaration.Spelling
import SchemaTypes.Proofs.References.Mentions

/-!
# Imports

The imports of a model are collected by a search of its fields that is not the one that declares them
and not the one that draws the graph of references. All three visit the same names: the imports are the
enums and the models of the batch that the declaration spells, each once and in the order of first use,
and the imported models are the references of the model other than itself.

So the documents of a batch need nothing that is not there. An imported model has a document, an
imported enum is declared in the document of the enums, and a name that is spelled without being imported
is that of the model itself or is reported.

Results:
* `foldl_withName`, `nodup_foldl_withName`: names that are collected one by one.
* `importsOf_eq`: the imports are collected from the pieces of the declaration.
* `nodup_importsOf`, `mem_models_importsOf`: nothing is imported twice, and which models are imported.
* `holdsBlock_documentText`: every block of a document stands in its text.
* `imports_closed`: the documents of a batch are closed under imports.
-/

namespace SchemaTypes.Declaration

open References

/-! ## Names that are collected one by one -/

theorem nodup_withName {names : List String} (h : names.Nodup) (name : String) :
    (withName names name).Nodup := by
  unfold withName
  split
  · exact h
  · rename_i hnew
    have hnew : name ∉ names := by simpa using hnew
    exact List.nodup_append.mpr ⟨h, List.nodup_singleton name, by
      rintro x hx y hy rfl
      exact hnew (List.mem_singleton.mp hy ▸ hx)⟩

theorem nodup_foldl_withName {names : List String} (h : names.Nodup) (more : List String) :
    (more.foldl withName names).Nodup := by
  induction more generalizing names with
  | nil => exact h
  | cons name more ih => exact ih (nodup_withName h name)

/-- Behind the names that are there already, every new name stands where it comes first. -/
theorem foldl_withName (names more : List String) :
    more.foldl withName names = names ++ (more.filter fun x => !names.contains x).eraseDups := by
  induction more generalizing names with
  | nil => simp
  | cons name more ih =>
    rw [List.foldl_cons, ih, List.filter_cons]
    by_cases hmem : name ∈ names
    · have hsame : withName names name = names := by simp [withName, hmem]
      simp [hsame, hmem]
    · have hnew : withName names name = names ++ [name] := by simp [withName, hmem]
      have hfilter : (more.filter fun x => !(names ++ [name]).contains x) =
          (more.filter fun x => !names.contains x).filter fun x => !x == name := by
        rw [List.filter_filter]
        refine List.filter_congr fun x _ => ?_
        by_cases hx : x = name <;> simp [hx]
      rw [hnew, hfilter, if_pos (by simpa using hmem), List.eraseDups_cons, List.append_assoc,
        List.singleton_append]

theorem foldl_withName_nil (names : List String) :
    names.foldl withName [] = names.eraseDups := by
  simp [foldl_withName]

/-! ## The imports are collected from the pieces -/

namespace Imports

/-- Whether the document of the owner may import the model. -/
def mayImport (ctx : Context) (owner name : String) : Bool :=
  name != owner && ctx.models.contains name

/-- The imports with the names that pieces spell. -/
def addPieces (ctx : Context) (owner : String) (ps : List Piece) (i : Imports) : Imports where
  enums := (enumsIn ps).foldl withName i.enums
  models := ((targetsIn ps).filter (mayImport ctx owner)).foldl withName i.models

section Pieces

variable (ctx : Context) (owner : String) (i : Imports)

theorem addPieces_append (ps qs : List Piece) :
    addPieces ctx owner (ps ++ qs) i = addPieces ctx owner qs (addPieces ctx owner ps i) := by
  simp [addPieces]

@[simp] theorem addPieces_text_cons (cs : List Char) (ps : List Piece) :
    addPieces ctx owner (.text cs :: ps) i = addPieces ctx owner ps i := rfl

@[simp] theorem addPieces_nil : addPieces ctx owner [] i = i := rfl

theorem addPieces_arrayPieces (element : List Piece) :
    addPieces ctx owner (arrayPieces element) i = addPieces ctx owner element i := by
  simp only [addPieces, enumsIn_arrayPieces, targetsIn_arrayPieces]

theorem addEnum_eq_addPieces (name : Option String) (values : List String) :
    i.addEnum ctx name = addPieces ctx owner (enumPieces ctx name values) i := by
  cases name with
  | none => rfl
  | some name =>
    simp only [addEnum, enumPieces]
    split <;> rfl

theorem addModel_eq_addPieces (target : String) :
    i.addModel ctx owner target = addPieces ctx owner [.target target] i := by
  have hmodel : i.addModel ctx owner target = if mayImport ctx owner target then
      { i with models := withName i.models target } else i := rfl
  have htargets : targetsIn [.target target] = [target] := rfl
  rw [hmodel, addPieces, htargets]
  by_cases h : mayImport ctx owner target = true
  · rw [List.filter_cons_of_pos h, if_pos h]
    rfl
  · rw [List.filter_cons_of_neg h, if_neg h]
    rfl

end Pieces

section Walk

variable (ctx : Context) (owner : String)

mutual

theorem addItem_eq_addPieces : ∀ (item : ItemType) (depth : Nat) (i : Imports),
    itemTargeted item = true →
      addItem ctx owner item i = addPieces ctx owner (itemPieces ctx depth item) i
  | .scalar _, _, _, _ => by simp [addItem, itemPieces]
  | .enum name values, _, i, _ => by
    simp only [addItem, itemPieces]
    exact addEnum_eq_addPieces ctx owner i name values
  | .reference target, _, i, _ => by
    simp only [addItem, itemPieces]
    exact addModel_eq_addPieces ctx owner i target
  | .object [], _, _, _ => by simp [addItem, addFields, itemPieces]
  | .object (f :: fields), depth, i, h => by
    rw [addItem, addFields_eq_addPieces (f :: fields) depth i (by simpa only [itemTargeted] using h)]
    simp [itemPieces, addPieces_append]

theorem addShape_eq_addPieces : ∀ (shape : Shape) (depth : Nat) (i : Imports),
    shapeTargeted shape = true →
      addShape ctx owner shape i = addPieces ctx owner (shapePieces ctx depth shape) i
  | .single item, depth, i, h => by
    rw [shapeTargeted] at h
    rw [addShape, shapePieces_single ctx h, addItem_eq_addPieces item depth i h]
  | .array item _, depth, i, h => by
    rw [shapeTargeted] at h
    rw [addShape, shapePieces, addPieces_arrayPieces, addItem_eq_addPieces item depth i h]

theorem addFields_eq_addPieces : ∀ (fields : List Field) (depth : Nat) (i : Imports),
    fieldsTargeted fields = true →
      addFields ctx owner fields i = addPieces ctx owner (fieldsPieces ctx depth fields) i
  | [], _, _, _ => rfl
  | ⟨name, required, shape, _, _, _, _, description⟩ :: fields, depth, i, h => by
    simp only [fieldsTargeted, Bool.and_eq_true] at h
    rw [addFields, addShape_eq_addPieces shape (depth + 1) i h.1,
      addFields_eq_addPieces fields depth _ h.2]
    simp [fieldsPieces, addPieces_append]

end

end Walk

end Imports

/-- The imports of a model are the names of the batch that its declaration spells, other than its own,
each where it comes first. -/
theorem importsOf_eq (ctx : Context) {m : Model} (h : fieldsTargeted m.fields = true) :
    importsOf ctx m =
      { enums := (enumsIn (interfacePieces ctx m)).eraseDups
        models := ((targetsIn (interfacePieces ctx m)).filter
          (Imports.mayImport ctx m.name)).eraseDups } := by
  rw [importsOf, Imports.addFields_eq_addPieces ctx m.name m.fields 0 {} h]
  simp [Imports.addPieces, interfacePieces, foldl_withName_nil]

theorem nodup_importsOf (ctx : Context) {m : Model} (h : fieldsTargeted m.fields = true) :
    (importsOf ctx m).enums.Nodup ∧ (importsOf ctx m).models.Nodup := by
  rw [importsOf, Imports.addFields_eq_addPieces ctx m.name m.fields 0 {} h]
  exact ⟨nodup_foldl_withName List.nodup_nil _, nodup_foldl_withName List.nodup_nil _⟩

/-- Only enums of the batch are imported. -/
theorem mem_enums_of_importsOf (ctx : Context) {m : Model} (h : fieldsTargeted m.fields = true)
    {name : String} (hname : name ∈ (importsOf ctx m).enums) : name ∈ ctx.enums := by
  rw [importsOf_eq ctx h] at hname
  exact enums_interfacePieces ctx (List.mem_eraseDups.mp hname)

/-- The imported models are the models of the batch, other than the model itself, to which it refers. -/
theorem mem_models_importsOf (ctx : Context) {m : Model} (h : fieldsTargeted m.fields = true)
    (target : String) : target ∈ (importsOf ctx m).models ↔
      target ∈ m.targets ∧ target ≠ m.name ∧ target ∈ ctx.models := by
  rw [importsOf_eq ctx h, List.mem_eraseDups, List.mem_filter, targets_interfacePieces ctx h,
    Imports.mayImport, Bool.and_eq_true, bne_iff_ne, List.contains_iff_mem]

/-! ## Blocks of a document -/

/-- Whether the block stands in the text of a document, behind an empty line and up to the end of a line. -/
def HoldsBlock (text block : String) : Prop :=
  ∃ before after, text = before ++ "\n\n" ++ block ++ "\n" ++ after

theorem holdsBlock_documentText {first block : String} {blocks : List String} (hfirst : first ≠ "")
    (hblock : block ≠ "") (hmem : block ∈ blocks) :
    HoldsBlock (documentText (first :: blocks)) block := by
  have hkept : block ∈ blocks.filter (· != "") := List.mem_filter.mpr ⟨hmem, by simpa using hblock⟩
  obtain ⟨before, after, hsplit⟩ := List.append_of_mem hkept
  have htext : documentText (first :: blocks) = "\n\n".intercalate (first :: before) ++ "\n\n" ++
      "\n\n".intercalate (block :: after) ++ "\n" := by
    rw [documentText, List.filter_cons_of_pos (by simpa using hfirst), hsplit, ← List.cons_append,
      String.intercalate_append_of_ne_nil (by simp) (by simp)]
  rw [htext]
  cases after with
  | nil => exact ⟨"\n\n".intercalate (first :: before), "", by simp [String.append_assoc]⟩
  | cons next after =>
    refine ⟨"\n\n".intercalate (first :: before),
      "\n" ++ "\n\n".intercalate (next :: after) ++ "\n", ?_⟩
    have hbreak : ("\n\n" : String) = "\n" ++ "\n" := rfl
    rw [String.intercalate_cons_cons]
    simp only [hbreak, String.append_assoc]

theorem joinLines_ne_empty (line : String) (h : line ≠ "") (lines : List String) :
    Text.joinLines (line :: lines) ≠ "" := by
  intro heq
  have hnil := congrArg String.toList heq
  rw [Text.toList_joinLines_cons] at hnil
  simp at hnil
  exact h hnil.1

theorem header_ne_empty (style : Style) (subtitle : List String) : header style subtitle ≠ "" := by
  have hcomment := joinLines_ne_empty "/**" (by decide)
    (" * AUTO-GENERATED by typebridge" :: (subtitle.map (" * " ++ ·) ++ [" */"]))
  unfold header
  split <;> simp_all

theorem enumDeclaration_ne_empty (style : Style) (d : EnumDefinition) :
    enumDeclaration style d ≠ "" := by
  have hfirst : "export enum " ++ d.name ++ " \x7b" ≠ "" := by simp
  unfold enumDeclaration
  split
  · exact joinLines_ne_empty _ (by decide) _
  · exact joinLines_ne_empty _ hfirst _

theorem mem_orderedEnums (style : Style) {enums : List EnumDefinition} {d : EnumDefinition} :
    d ∈ orderedEnums style enums ↔ d ∈ enums := by
  unfold orderedEnums
  split <;> simp

/-- Every enum of a batch is declared in the document of the enums. -/
theorem holdsBlock_enumsDocument (style : Style) {enums : List EnumDefinition} {d : EnumDefinition}
    (hd : d ∈ enums) : HoldsBlock (enumsDocument enums style) (enumDeclaration style d) := by
  have hmem := (mem_orderedEnums style).mpr hd
  have hblocks : enumsDocument enums style = documentText (header style ["Enum definitions"] ::
      (orderedEnums style enums).map (enumDeclaration style)) := by
    unfold enumsDocument
    cases horder : orderedEnums style enums with
    | nil => simp [horder] at hmem
    | cons first more => rfl
  rw [hblocks]
  exact holdsBlock_documentText (header_ne_empty style _) (enumDeclaration_ne_empty style d)
    (List.mem_map_of_mem hmem)

/-! ## Documents are closed under imports -/

section Batch

variable {models : List Model} {enums : List EnumDefinition} {style : Style} {m : Model}

/-- Every model of a batch has its document. -/
theorem modelDocument_mem {documents : List (String × String)}
    (h : perModel models enums style = .ok documents) (hm : m ∈ models) :
    (fileName m.name, modelDocument (Context.of models enums style) m) ∈ documents := by
  rw [(perModel_ok_iff.mp h).2]
  exact List.mem_append_left _
    (List.mem_map_of_mem (f := fun m => (fileName m.name, modelDocument _ m)) hm)

theorem enumsDocument_mem {documents : List (String × String)}
    (h : perModel models enums style = .ok documents) :
    (fileName enumsModule, enumsDocument enums style) ∈ documents := by
  simp [(perModel_ok_iff.mp h).2]

/-- Every enum of a batch is declared in a document, the one from which the enums are imported. -/
theorem enum_declared {name : String} (hname : name ∈ (Context.of models enums style).enums) :
    ∃ d ∈ enums, d.name = name ∧ HoldsBlock (enumsDocument enums style) (enumDeclaration style d) := by
  obtain ⟨d, hd, hname⟩ := List.mem_map.mp hname
  exact ⟨d, hd, hname, holdsBlock_enumsDocument style hd⟩

/-- The documents of a batch are closed under imports. The imports of a model are the enums of the batch
that its declaration spells by name and the models of the batch that it spells as targets, other than the
model itself. Such models are its references, they have documents, and such enums are declared. Every
other target is the model itself or is reported. -/
theorem imports_closed (hnames : (models.map (·.name)).Nodup)
    (htargets : ∀ m ∈ models, fieldsTargeted m.fields = true) (enums : List EnumDefinition)
    (style : Style) (hm : m ∈ models) :
    let ctx := Context.of models enums style
    let imports := importsOf ctx m
    (interface ctx m).toList = piecesText (interfacePieces ctx m) ∧
      (imports.enums.Nodup ∧ imports.enums = (enumsIn (interfacePieces ctx m)).eraseDups) ∧
      (imports.models.Nodup ∧ imports.models =
        ((targetsIn (interfacePieces ctx m)).filter fun t =>
          t != m.name && (models.map (·.name)).contains t).eraseDups) ∧
      (∀ t, t ∈ imports.models ↔ t ∈ (analyze models).graph.references m.name ∧ t ≠ m.name) ∧
      (∀ documents, perModel models enums style = .ok documents →
        (∀ t ∈ imports.models, ∃ n ∈ models, n.name = t ∧
          (fileName t, modelDocument ctx n) ∈ documents) ∧
        ∀ e ∈ imports.enums, ∃ d ∈ enums, d.name = e ∧
          (fileName enumsModule, enumsDocument enums style) ∈ documents ∧
          HoldsBlock (enumsDocument enums style) (enumDeclaration style d)) ∧
      ∀ t ∈ targetsIn (interfacePieces ctx m), t ≠ m.name → t ∉ imports.models →
        unresolvedIssue m.name t m.sourcePath ∈ (analyze models).issues := by
  intro ctx imports
  have himports := importsOf_eq ctx (htargets m hm)
  have hspelled := targets_interfacePieces ctx (htargets m hm)
  have hmodels := mem_models_importsOf ctx (htargets m hm)
  obtain ⟨hnodupEnums, hnodupModels⟩ := nodup_importsOf ctx (htargets m hm)
  refine ⟨interface_eq_pieces ctx m, ⟨hnodupEnums, congrArg Imports.enums himports⟩,
    ⟨hnodupModels, congrArg Imports.models himports⟩, ?_, ?_, ?_⟩
  · intro t
    rw [hmodels, analyze_graph, mem_references_iff hnames hm, and_assoc, and_comm (a := t ≠ m.name)]
    rfl
  · intro documents hdocuments
    refine ⟨fun t ht => ?_, fun e he => ?_⟩
    · obtain ⟨n, hn, rfl⟩ := List.mem_map.mp ((hmodels t).mp ht).2.2
      exact ⟨n, hn, rfl, modelDocument_mem hdocuments hn⟩
    · obtain ⟨d, hd, hname, hblock⟩ := enum_declared (mem_enums_of_importsOf ctx (htargets m hm) he)
      exact ⟨d, hd, hname, enumsDocument_mem hdocuments, hblock⟩
  · intro t ht hother hnone
    rw [hspelled] at ht
    exact unresolvedIssue_mem_issues hnames hm ht fun hmodel =>
      hnone ((hmodels t).mpr ⟨ht, hother, hmodel⟩)

/-- A field that must have a value and is nothing else. -/
def plainField (name : String) (shape : Shape) : Field :=
  ⟨name, true, shape, false, none, false, false, none⟩

/-- A model with an enum and references as elements, inside an object and to itself. -/
def order : Model :=
  ⟨"Order", [plainField "items" (.array (.reference "Item") false),
    plainField "details" (.single (.object [plainField "buyer" (.single (.reference "User")),
      plainField "earlier" (.array (.reference "Order") false),
      plainField "first" (.single (.reference "Item")),
      plainField "states" (.array (.enum (some "State") ["open", "done"]) false)]))],
    .prisma, none, none⟩

/-- The batch of the model with the one that it refers to. -/
def orders : List Model :=
  [order, ⟨"Item", [plainField "id" (.single (.scalar .string))], .prisma, none, none⟩]

/-- The enum that the model names. -/
def orderState : EnumDefinition :=
  ⟨"State", ["open", "done"], none⟩

/-- The item and the state are imported, and the buyer is reported. -/
theorem imports_closed_order :
    importsOf (.of orders [orderState] {}) order = { enums := ["State"], models := ["Item"] } ∧
      "Item" ∈ (analyze orders).graph.references "Order" ∧
      (∃ documents, perModel orders [orderState] {} = .ok documents ∧ ∃ n ∈ orders,
        n.name = "Item" ∧ ("Item.ts", modelDocument (.of orders [orderState] {}) n) ∈ documents) ∧
      unresolvedIssue "Order" "User" none ∈ (analyze orders).issues := by
  have himports : importsOf (.of orders [orderState] {}) order =
      { enums := ["State"], models := ["Item"] } := by decide
  have hpieces : "User" ∈ targetsIn (interfacePieces (.of orders [orderState] {}) order) := by decide
  have hnames : (orders.map (·.name)).Nodup := by decide
  have hmem : order ∈ orders := List.mem_cons_self
  obtain ⟨-, -, -, hreferences, hdocuments, hother⟩ :=
    imports_closed hnames (by decide) [orderState] {} hmem
  obtain ⟨documents, hok⟩ : ∃ documents, perModel orders [orderState] {} = .ok documents :=
    ⟨_, perModel_ok_iff.mpr ⟨by decide +kernel, rfl⟩⟩
  exact ⟨himports, ((hreferences "Item").mp (by decide)).1,
    ⟨documents, hok, (hdocuments documents hok).1 "Item" (by decide)⟩,
    hother "User" hpieces (by decide) (by decide)⟩

end Batch

end SchemaTypes.Declaration
