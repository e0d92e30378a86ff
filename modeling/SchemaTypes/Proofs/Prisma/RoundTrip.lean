import SchemaTypes.Proofs.Prisma.Blocks

/-!
# Canonical schemas are read as they are declared

The blocks of a canonical schema are found by the scan, their lines are read one by one, and what they
yield is what was declared: one raw enum for each enum and one raw model for each other block, in order.
Nothing is left out, so there is no issue.

Results:
* `enumOfBlock_eq_ok`, `modelOfBlock_eq_ok`: one block.
* `map_filter_of_forall₂`: the blocks of one sort, by induction on the declarations.
* `ofSources_schemaText`: a canonical schema.
-/

namespace SchemaTypes.Prisma

variable {path : Option String} {d : Decl} {b : Block}

/-! ## One block -/

theorem enumOfBlock_eq_ok {values : List String} (hb : IsBlockOf path d b)
    (hbody : d.body = .values values) (h : d.body.isCanonical = true) :
    enumOfBlock b = .ok { name := d.name, values, sourcePath := path } := by
  have hlines : Text.splitLines b.body = [] :: values.map String.toList := by
    rw [hb.body, splitLines_body h, hbody]
    rfl
  rw [hbody] at h
  simp only [Body.isCanonical, Bool.and_eq_true, Bool.not_eq_true', List.isEmpty_eq_false_iff] at h
  have hvalues : enumValues ([] :: values.map String.toList) = .ok values :=
    enumValues_values h.2
  rw [enumOfBlock, hlines, hvalues, hb.name, hb.sourcePath]
  split
  · contradiction
  · simp_all
  · simp_all

theorem modelOfBlock_eq_ok {keyword : Keyword} {fields : List FieldDecl}
    (enums : List (String × List String)) (hb : IsBlockOf path d b)
    (hbody : d.body = .fields keyword fields) (h : d.body.isCanonical = true) :
    modelOfBlock (rawEnumsOf path enums) b =
      .ok { name := d.name, fields := fields.map (FieldDecl.raw enums)
            sourceKind := SourceKind.prisma.text, sourcePath := path
            description := description d.docs } := by
  have hlines : Text.splitLines b.body = [] :: fields.flatMap FieldDecl.lines := by
    rw [hb.body, splitLines_body h, hbody]
    rfl
  rw [hbody] at h
  simp only [Body.isCanonical, Bool.and_eq_true] at h
  have hfields : fieldsOfLines (rawEnumsOf path enums) b.line [] ([] :: fields.flatMap FieldDecl.lines) =
      .ok (fields.map (FieldDecl.raw enums)) :=
    fieldsOfLines_fields h.2 path enums (b.line + 1)
  rw [modelOfBlock, hlines, hfields, hb.name, hb.sourcePath, hb.description]

/-! ## All blocks -/

theorem partition_map_ok {α ε : Type} (xs : List α) :
    partition (xs.map (Except.ok : α → Except ε α)) = (xs, []) := by
  induction xs with
  | nil => rfl
  | cons x xs ih => simp [partition, ih]

theorem rawEnumsOf_declaredEnums (path : Option String) (decls : List Decl) :
    rawEnumsOf path (declaredEnums decls) = decls.filterMap (Decl.rawEnum? path) := by
  rw [rawEnumsOf, declaredEnums, List.map_filterMap]
  congr 1
  funext d
  rw [Decl.rawEnum?]
  cases d.body <;> rfl

variable {decls : List Decl} {blocks : List Block}

/-- The blocks of one sort are read in the order of their declarations, if each of them is. -/
theorem map_filter_of_forall₂ {α ε : Type} {keep : Block → Bool} {read : Block → Except ε α}
    {declared : Decl → Option α} (hblocks : List.Forall₂ (IsBlockOf path) decls blocks)
    (h : decls.all Decl.isCanonical = true)
    (hread : ∀ d b, IsBlockOf path d b → d.isCanonical = true →
      keep b = (declared d).isSome ∧ ∀ a, declared d = some a → read b = .ok a) :
    (blocks.filter keep).map read = (decls.filterMap declared).map .ok := by
  induction hblocks with
  | nil => rfl
  | @cons d b decls blocks hb _ ih =>
    simp only [List.all_cons, Bool.and_eq_true] at h
    obtain ⟨hkeep, hok⟩ := hread d b hb h.1
    cases hdeclared : declared d with
    | none =>
      rw [hdeclared, Option.isSome_none] at hkeep
      rw [List.filter_cons_of_neg (by simp [hkeep]), List.filterMap_cons_none hdeclared, ih h.2]
    | some a =>
      rw [hdeclared, Option.isSome_some] at hkeep
      rw [List.filter_cons_of_pos hkeep, List.filterMap_cons_some hdeclared, List.map_cons,
        List.map_cons, ih h.2, hok a hdeclared]

theorem map_enumOfBlock (hblocks : List.Forall₂ (IsBlockOf path) decls blocks)
    (h : decls.all Decl.isCanonical = true) :
    (blocks.filter fun b => b.keyword == .enum).map enumOfBlock =
      (decls.filterMap (Decl.rawEnum? path)).map .ok := by
  refine map_filter_of_forall₂ hblocks h fun d b hb hcanonical => ?_
  simp only [Decl.isCanonical, Bool.and_eq_true] at hcanonical
  cases hbody : d.body with
  | values values =>
    have hraw : d.rawEnum? path = some { name := d.name, values, sourcePath := path } := by
      simp [Decl.rawEnum?, hbody]
    have hok := enumOfBlock_eq_ok hb hbody hcanonical.2
    simp [hb.keyword, hbody, Body.keyword, hraw, hok]
  | fields keyword fields =>
    have hraw : d.rawEnum? path = none := by simp [Decl.rawEnum?, hbody]
    have hkeyword : keyword ≠ .enum := by
      rintro rfl
      simp [hbody, Body.isCanonical, Keyword.declaresFields] at hcanonical
    simp [hb.keyword, hbody, Body.keyword, hraw, hkeyword]

theorem map_modelOfBlock (enums : List (String × List String))
    (hblocks : List.Forall₂ (IsBlockOf path) decls blocks) (h : decls.all Decl.isCanonical = true) :
    (blocks.filter fun b => b.keyword.declaresFields).map (modelOfBlock (rawEnumsOf path enums)) =
      (decls.filterMap (Decl.rawModel? path enums)).map .ok := by
  refine map_filter_of_forall₂ hblocks h fun d b hb hcanonical => ?_
  simp only [Decl.isCanonical, Bool.and_eq_true] at hcanonical
  cases hbody : d.body with
  | values values =>
    have hraw : d.rawModel? path enums = none := by simp [Decl.rawModel?, hbody]
    simp [hb.keyword, hbody, Body.keyword, Keyword.declaresFields, hraw]
  | fields keyword fields =>
    have hraw : d.rawModel? path enums = some { name := d.name
                                                fields := fields.map (FieldDecl.raw enums)
                                                sourceKind := SourceKind.prisma.text
                                                sourcePath := path
                                                description := description d.docs } := by
      simp [Decl.rawModel?, hbody]
    have hok := modelOfBlock_eq_ok enums hb hbody hcanonical.2
    have hkeyword : keyword.declaresFields = true := by
      simp only [hbody, Body.isCanonical, Bool.and_eq_true] at hcanonical
      exact hcanonical.2.1
    simp [hb.keyword, hbody, Body.keyword, hraw, hok, hkeyword]

/-- A canonical schema is read as it is declared. -/
theorem ofSources_schemaText (path : Option String) {decls : List Decl}
    (h : decls.all Decl.isCanonical = true) :
    (Schema.ofSources [{ path, text := schemaText decls }]).raw = rawSchemaOf path decls := by
  obtain ⟨blocks, hblocks, hscan⟩ := scanFrom_schemaText path h (Or.inl rfl)
  have hfound : scanAll [{ path, text := schemaText decls }] = blocks.map Found.block := by
    simpa [scanAll, scan] using hscan
  have hall : (blocks.map Found.block).filterMap Found.block? = blocks := by
    simp [List.filterMap_map, Function.comp_def, Found.block?]
  have hfaults : (blocks.map Found.block).filterMap Found.fault? = [] := by
    simp [List.filterMap_map, Function.comp_def, Found.fault?]
  simp only [Schema.ofSources, hfound, hall, hfaults, map_enumOfBlock hblocks h, partition_map_ok,
    ← rawEnumsOf_declaredEnums, map_modelOfBlock (declaredEnums decls) hblocks h]
  simp [Schema.raw, rawSchemaOf, rawEnumsOf_declaredEnums]

/-- An enum with documentation, a model whose default has a brace, a quote, slashes and parentheses in
it, and a type without fields. -/
def sampleDecls : List Decl :=
  [{ docs := ["What a user may do", "in the shop"], name := "Role", body := .values ["ADMIN", "GUEST"] },
   { docs := [], name := "User"
     body := .fields .model
      [{ docs := ["The key"], name := "id", typeName := "Int", isArray := false, isOptional := true
         isId := true, isUnique := false, defaultText := some "f(\"\x7d \\\" //\", g(1))" },
       { docs := [], name := "roles", typeName := "Role", isArray := true, isOptional := false
         isId := false, isUnique := true, defaultText := some "" },
       { docs := [], name := "team", typeName := "Team", isArray := false, isOptional := true
         isId := false, isUnique := false, defaultText := none }] },
   { docs := [], name := "Team", body := .fields .type [] }]

theorem ofSources_schemaText_sample :
    sampleDecls.all Decl.isCanonical = true ∧
      (Schema.ofSources [{ path := none, text := schemaText sampleDecls }]).raw =
        rawSchemaOf none sampleDecls ∧
      (rawSchemaOf none sampleDecls).enums =
        [{ name := "Role", values := ["ADMIN", "GUEST"], sourcePath := none }] ∧
      (rawSchemaOf none sampleDecls).models.map (·.fields.map (·.target)) =
        [[none, none, some "Team"], []] :=
  ⟨by decide +kernel, ofSources_schemaText none (by decide +kernel), by decide +kernel,
    by decide +kernel⟩

end SchemaTypes.Prisma
