import SchemaTypes.Declaration.Document
import SchemaTypes.Proofs.Model.Shapes
import SchemaTypes.References.Analysis

/-!
# Marks on references

A field and the element of an array can be marked. A rule for marks says what becomes of the mark at a place
whose reference has a given target; followed at every depth it changes marks and nothing else. To mark the
references of a model to itself is to follow such a rule, and to clear all marks is to follow another.

Results:
* `markAll_eq_remarkAll`: references to the owner are marked by a rule.
* `positionsOf_remarkAll`: what a rule does at the places that can be marked.
* `remarkAll_remarkAll`, `remarkAll_eq_self`: two rules one after the other, and a rule without effect.
* `targetsOf_eq_positions`: the names that fields refer to stand at these places.
* `References.analyze_graph`: the graph of the analysis does not depend on marks.
* `fieldLines_remarkAll`, `addFields_remarkAll`: declarations and imports do not depend on marks.
* `marking_exact`: the marks on the models of a batch.
-/

namespace SchemaTypes

/-! ## Places that can be marked -/

/-- The target of an item that is a reference. -/
def ItemType.target? : ItemType → Option String
  | .reference target => some target
  | _ => none

/-- The target of a shape that is a single reference. -/
def Shape.target? : Shape → Option String
  | .single item => item.target?
  | .array _ _ => none

/-- A place that can be marked. -/
inductive Position where
  | field (f : Field)
  | element (item : ItemType) (isSelfReference : Bool)

namespace Position

/-- The target, if a reference stands at the place. -/
def target? : Position → Option String
  | field f => f.shape.target?
  | element item _ => item.target?

/-- Whether the place is marked. -/
def isMarked : Position → Bool
  | field f => f.isSelfReference
  | element _ isSelfReference => isSelfReference

end Position

mutual

/-- The places inside an item, in order. -/
def ItemType.positions : ItemType → List Position
  | .scalar _ => []
  | .enum _ _ => []
  | .reference _ => []
  | .object fields => positionsOf fields

/-- The places of a shape and inside it, in order. -/
def Shape.positions : Shape → List Position
  | .single item => item.positions
  | .array item isSelfReference => .element item isSelfReference :: item.positions

/-- The places of fields at every depth, in order. -/
def positionsOf : List Field → List Position
  | [] => []
  | ⟨name, required, shape, isSelf, defaultValue, isPrimary, isUnique, description⟩ :: fields =>
    .field ⟨name, required, shape, isSelf, defaultValue, isPrimary, isUnique, description⟩ ::
      (shape.positions ++ positionsOf fields)

end

/-- The places of a model at every depth. -/
def Model.positions (m : Model) : List Position :=
  positionsOf m.fields

/-! ## Rules for marks -/

/-- What becomes of the mark at a place whose reference has the given target. -/
abbrev MarkRule := Option String → Bool → Bool

/-- References to the owner are marked. -/
def MarkRule.ofOwner (owner : String) : MarkRule :=
  fun target marked => marked || target == some owner

/-- Nothing is marked. -/
def MarkRule.clearing : MarkRule :=
  fun _ _ => false

mutual

/-- The item with the rule followed inside it. -/
def ItemType.remark (rule : MarkRule) : ItemType → ItemType
  | .scalar kind => .scalar kind
  | .enum name values => .enum name values
  | .reference target => .reference target
  | .object fields => .object (remarkAll rule fields)

/-- The shape with the rule followed at its element and inside it. -/
def Shape.remark (rule : MarkRule) : Shape → Shape
  | .single item => .single (item.remark rule)
  | .array item isSelfReference => .array (item.remark rule) (rule item.target? isSelfReference)

/-- The fields with the rule followed at every depth. -/
def remarkAll (rule : MarkRule) : List Field → List Field
  | [] => []
  | ⟨name, required, shape, isSelf, defaultValue, isPrimary, isUnique, description⟩ :: fields =>
    ⟨name, required, shape.remark rule, rule shape.target? isSelf, defaultValue, isPrimary, isUnique,
      description⟩ :: remarkAll rule fields

end

/-- The model without marks. -/
def Model.unmark (m : Model) : Model :=
  { m with fields := remarkAll MarkRule.clearing m.fields }

section Rules

variable {rule first second : MarkRule}

theorem ItemType.target?_remark (item : ItemType) : (item.remark rule).target? = item.target? := by
  cases item <;> simp only [ItemType.remark, ItemType.target?]

theorem Shape.target?_remark (shape : Shape) : (shape.remark rule).target? = shape.target? := by
  cases shape <;> simp only [Shape.remark, Shape.target?, ItemType.target?_remark]

/-- What a rule does at a place. -/
def Position.remark (rule : MarkRule) : Position → Position
  | field f => field { f with shape := f.shape.remark rule
                              isSelfReference := rule f.shape.target? f.isSelfReference }
  | element item isSelfReference => element (item.remark rule) (rule item.target? isSelfReference)

theorem Position.target?_remark (p : Position) : (p.remark rule).target? = p.target? := by
  cases p with
  | field f => exact Shape.target?_remark f.shape
  | element item _ => exact ItemType.target?_remark item

theorem Position.isMarked_remark (p : Position) :
    (p.remark rule).isMarked = rule p.target? p.isMarked := by
  cases p <;> rfl

mutual

theorem ItemType.positions_remark : ∀ item : ItemType,
    (item.remark rule).positions = item.positions.map (Position.remark rule)
  | .scalar _ => by simp [ItemType.remark, ItemType.positions]
  | .enum _ _ => by simp [ItemType.remark, ItemType.positions]
  | .reference _ => by simp [ItemType.remark, ItemType.positions]
  | .object fields => by
    rw [ItemType.remark, ItemType.positions, ItemType.positions, positionsOf_remarkAll fields]

theorem Shape.positions_remark : ∀ shape : Shape,
    (shape.remark rule).positions = shape.positions.map (Position.remark rule)
  | .single item => by
    rw [Shape.remark, Shape.positions, Shape.positions, ItemType.positions_remark item]
  | .array item _ => by
    rw [Shape.remark, Shape.positions, Shape.positions, ItemType.positions_remark item]
    rfl

/-- A rule is followed at every place. -/
theorem positionsOf_remarkAll : ∀ fields : List Field,
    positionsOf (remarkAll rule fields) = (positionsOf fields).map (Position.remark rule)
  | [] => by simp [remarkAll, positionsOf]
  | ⟨_, _, shape, _, _, _, _, _⟩ :: fields => by
    rw [remarkAll, positionsOf, positionsOf, Shape.positions_remark shape,
      positionsOf_remarkAll fields, List.map_cons, List.map_append]
    rfl

end

mutual

theorem ItemType.remark_remark : ∀ item : ItemType, (item.remark first).remark second =
    item.remark fun target marked => second target (first target marked)
  | .scalar _ => by simp only [ItemType.remark]
  | .enum _ _ => by simp only [ItemType.remark]
  | .reference _ => by simp only [ItemType.remark]
  | .object fields => by simp only [ItemType.remark, remarkAll_remarkAll fields]

theorem Shape.remark_remark : ∀ shape : Shape, (shape.remark first).remark second =
    shape.remark fun target marked => second target (first target marked)
  | .single item => by simp only [Shape.remark, ItemType.remark_remark item]
  | .array item _ => by
    simp only [Shape.remark, ItemType.remark_remark item, ItemType.target?_remark]

/-- Two rules one after the other are one rule. -/
theorem remarkAll_remarkAll : ∀ fields : List Field, remarkAll second (remarkAll first fields) =
    remarkAll (fun target marked => second target (first target marked)) fields
  | [] => rfl
  | ⟨_, _, shape, _, _, _, _, _⟩ :: fields => by
    simp only [remarkAll, Shape.remark_remark shape, Shape.target?_remark, remarkAll_remarkAll fields]

end

mutual

theorem ItemType.remark_eq_self : ∀ item : ItemType,
    (∀ p ∈ item.positions, rule p.target? p.isMarked = p.isMarked) → item.remark rule = item
  | .scalar _, _ => by rw [ItemType.remark]
  | .enum _ _, _ => by rw [ItemType.remark]
  | .reference _, _ => by rw [ItemType.remark]
  | .object fields, h => by
    rw [ItemType.positions] at h
    rw [ItemType.remark, remarkAll_eq_self fields h]

theorem Shape.remark_eq_self : ∀ shape : Shape,
    (∀ p ∈ shape.positions, rule p.target? p.isMarked = p.isMarked) → shape.remark rule = shape
  | .single item, h => by
    rw [Shape.positions] at h
    rw [Shape.remark, ItemType.remark_eq_self item h]
  | .array item isSelf, h => by
    rw [Shape.positions, List.forall_mem_cons] at h
    have hmark : rule item.target? isSelf = isSelf := h.1
    rw [Shape.remark, ItemType.remark_eq_self item h.2, hmark]

/-- A rule that keeps the mark at every place changes nothing. -/
theorem remarkAll_eq_self : ∀ fields : List Field,
    (∀ p ∈ positionsOf fields, rule p.target? p.isMarked = p.isMarked) → remarkAll rule fields = fields
  | [], _ => rfl
  | ⟨_, _, shape, isSelf, _, _, _, _⟩ :: fields, h => by
    rw [positionsOf, List.forall_mem_cons, List.forall_mem_append] at h
    have hmark : rule shape.target? isSelf = isSelf := h.1
    rw [remarkAll, Shape.remark_eq_self shape h.2.1, remarkAll_eq_self fields h.2.2, hmark]

end

end Rules

/-! ## References to the owner -/

theorem ItemType.refersTo_eq (owner : String) (item : ItemType) :
    item.refersTo owner = (item.target? == some owner) := by
  cases item <;> simp [ItemType.refersTo, ItemType.target?]

mutual

theorem ItemType.markSelf_eq_remark (owner : String) : ∀ item : ItemType,
    item.markSelf owner = item.remark (MarkRule.ofOwner owner)
  | .scalar _ => by rw [ItemType.markSelf, ItemType.remark]
  | .enum _ _ => by rw [ItemType.markSelf, ItemType.remark]
  | .reference _ => by rw [ItemType.markSelf, ItemType.remark]
  | .object fields => by rw [ItemType.markSelf, ItemType.remark, markAll_eq_remarkAll owner fields]

/-- References to the owner are marked by the rule for them. -/
theorem markAll_eq_remarkAll (owner : String) : ∀ fields : List Field,
    markAll owner fields = remarkAll (MarkRule.ofOwner owner) fields
  | [] => by rw [markAll, remarkAll]
  | ⟨_, _, .single item, isSelf, _, _, _, _⟩ :: fields => by
    rw [markAll, Field.markSelf, remarkAll, Shape.remark, ItemType.markSelf_eq_remark owner item,
      markAll_eq_remarkAll owner fields, ItemType.refersTo_eq]
    rfl
  | ⟨_, _, .array item _, isSelf, _, _, _, _⟩ :: fields => by
    -- The mark of an array itself stays: no reference stands there.
    have hkept : MarkRule.ofOwner owner none isSelf = isSelf := by simp [MarkRule.ofOwner]
    rw [markAll, Field.markSelf, remarkAll, Shape.remark, ItemType.markSelf_eq_remark owner item,
      markAll_eq_remarkAll owner fields, ItemType.refersTo_eq, Shape.target?, hkept]
    rfl

end

theorem Model.markSelf_eq (m : Model) :
    m.markSelf = { m with fields := remarkAll (MarkRule.ofOwner m.name) m.fields } := by
  rw [Model.markSelf, markAll_eq_remarkAll]

/-- The targets at some places, in order. -/
def targetsAt (ps : List Position) : List String :=
  ps.filterMap Position.target?

theorem targetsAt_cons (p : Position) (ps : List Position) :
    targetsAt (p :: ps) = p.target?.toList ++ targetsAt ps := by
  cases htarget : p.target? <;> simp [targetsAt, htarget]

theorem targetsAt_append (ps qs : List Position) :
    targetsAt (ps ++ qs) = targetsAt ps ++ targetsAt qs := by
  simp [targetsAt]

mutual

theorem ItemType.targets_eq_positions : ∀ item : ItemType,
    item.targets = (item.target?.toList ++ targetsAt item.positions).filter (· != "")
  | .scalar _ => rfl
  | .enum _ _ => rfl
  | .reference target => by
    by_cases h : target = "" <;>
      simp [ItemType.targets, ItemType.target?, ItemType.positions, targetsAt, h]
  | .object fields => by
    rw [ItemType.targets, ItemType.positions, targetsOf_eq_positions fields]
    rfl

/-- The names that fields refer to are the targets at their places, but for the empty one. -/
theorem targetsOf_eq_positions : ∀ fields : List Field,
    targetsOf fields = (targetsAt (positionsOf fields)).filter (· != "")
  | [] => rfl
  | ⟨_, _, .single item, _, _, _, _, _⟩ :: fields => by
    rw [targetsOf, Field.targets, ItemType.targets_eq_positions item, targetsOf_eq_positions fields,
      ← List.filter_append, positionsOf, Shape.positions, targetsAt_cons, targetsAt_append,
      List.append_assoc]
    rfl
  | ⟨_, _, .array item _, _, _, _, _, _⟩ :: fields => by
    rw [targetsOf, Field.targets, ItemType.targets_eq_positions item, targetsOf_eq_positions fields,
      ← List.filter_append, positionsOf, Shape.positions, List.cons_append, targetsAt_cons,
      targetsAt_cons, targetsAt_append, List.append_assoc]
    rfl

end

/-- A name stands among the targets as often as there are places with it as their target. -/
theorem count_targetsOf {owner : String} (hne : owner ≠ "") (fields : List Field) :
    (targetsOf fields).count owner =
      (positionsOf fields).countP fun p => p.target? == some owner := by
  have hkept : (owner != "") = true := by simpa using hne
  rw [targetsOf_eq_positions, List.count_filter (p := (· != "")) hkept, List.count, targetsAt,
    List.countP_filterMap]
  congr 1
  funext p
  cases p.target? <;> simp

theorem targetsOf_remarkAll {rule : MarkRule} (fields : List Field) :
    targetsOf (remarkAll rule fields) = targetsOf fields := by
  have htarget : Position.target? ∘ Position.remark rule = Position.target? :=
    funext Position.target?_remark
  rw [targetsOf_eq_positions, targetsOf_eq_positions, positionsOf_remarkAll, targetsAt,
    List.filterMap_map, htarget, targetsAt]

/-- Marking changes no target. -/
theorem Model.targets_markSelf (m : Model) : m.markSelf.targets = m.targets := by
  rw [Model.markSelf_eq, Model.targets, targetsOf_remarkAll, Model.targets]

/-- So the graph that the analysis draws is that of the models it is given. -/
theorem References.analyze_graph (models : List Model) :
    (analyze models).graph = Graph.ofModels models := by
  simp [analyze, Graph.ofModels, Function.comp_def, Model.markSelf_name, Model.targets_markSelf]

/-! ## Declarations and imports -/

section Frame

open Declaration

variable {rule : MarkRule} (ctx : Context)

mutual

theorem itemType_remark : ∀ (item : ItemType) (depth : Nat),
    itemType ctx depth (item.remark rule) = itemType ctx depth item
  | .scalar _, _ => by rw [ItemType.remark]
  | .enum _ _, _ => by rw [ItemType.remark]
  | .reference _, _ => by rw [ItemType.remark]
  | .object fields, depth => by
    rw [ItemType.remark, itemType, itemType, fieldLines_remarkAll fields depth]

theorem shapeType_remark : ∀ (shape : Shape) (depth : Nat),
    shapeType ctx depth (shape.remark rule) = shapeType ctx depth shape
  | .single (.scalar _), _ => by rw [Shape.remark, ItemType.remark]
  | .single (.enum _ _), _ => by rw [Shape.remark, ItemType.remark]
  | .single (.reference _), _ => by rw [Shape.remark, ItemType.remark]
  | .single (.object fields), depth => by
    have hitem := itemType_remark (.object fields) depth
    rw [ItemType.remark] at hitem
    rw [Shape.remark, ItemType.remark, shapeType, shapeType, hitem]
    all_goals simp
  | .array item _, depth => by
    rw [Shape.remark, shapeType, shapeType, itemType_remark item depth]

/-- The lines of fields do not depend on marks. -/
theorem fieldLines_remarkAll : ∀ (fields : List Field) (depth : Nat),
    fieldLines ctx depth (remarkAll rule fields) = fieldLines ctx depth fields
  | [], _ => rfl
  | ⟨_, _, shape, _, _, _, _, _⟩ :: fields, depth => by
    rw [remarkAll, fieldLines, fieldLines, shapeType_remark shape, fieldLines_remarkAll fields]

end

variable (owner : String)

mutual

theorem addItem_remark : ∀ (item : ItemType) (i : Imports),
    Imports.addItem ctx owner (item.remark rule) i = Imports.addItem ctx owner item i
  | .scalar _, _ => by rw [ItemType.remark]
  | .enum _ _, _ => by rw [ItemType.remark]
  | .reference _, _ => by rw [ItemType.remark]
  | .object fields, i => by
    rw [ItemType.remark, Imports.addItem, Imports.addItem, addFields_remarkAll fields i]

theorem addShape_remark : ∀ (shape : Shape) (i : Imports),
    Imports.addShape ctx owner (shape.remark rule) i = Imports.addShape ctx owner shape i
  | .single item, i => by
    rw [Shape.remark, Imports.addShape, Imports.addShape, addItem_remark item i]
  | .array item _, i => by
    rw [Shape.remark, Imports.addShape, Imports.addShape, addItem_remark item i]

/-- The imports that fields need do not depend on marks. -/
theorem addFields_remarkAll : ∀ (fields : List Field) (i : Imports),
    Imports.addFields ctx owner (remarkAll rule fields) i = Imports.addFields ctx owner fields i
  | [], _ => rfl
  | ⟨_, _, shape, _, _, _, _, _⟩ :: fields, i => by
    rw [remarkAll, Imports.addFields, Imports.addFields, addShape_remark shape i,
      addFields_remarkAll fields]

end

theorem interface_markSelf (m : Model) : interface ctx m.markSelf = interface ctx m := by
  rw [Model.markSelf_eq, interface, fieldLines_remarkAll, interface]
  rfl

theorem importsOf_markSelf (m : Model) : importsOf ctx m.markSelf = importsOf ctx m := by
  rw [Model.markSelf_eq, importsOf, addFields_remarkAll, importsOf]

theorem Context.of_markSelf (models : List Model) (enums : List EnumDefinition) (style : Style) :
    Context.of (models.map Model.markSelf) enums style = Context.of models enums style := by
  simp [Context.of, Function.comp_def, Model.markSelf_name]

theorem combined_markSelf (models : List Model) (enums : List EnumDefinition) (style : Style) :
    combined (models.map Model.markSelf) enums style = combined models enums style := by
  simp only [combined, Context.of_markSelf, List.map_map, Function.comp_def, interface_markSelf]

theorem perModel_markSelf (models : List Model) (enums : List EnumDefinition) (style : Style) :
    perModel (models.map Model.markSelf) enums style = perModel models enums style := by
  have hfind : (models.map Model.markSelf).find? (fun m => isReserved m.name) =
      (models.find? fun m => isReserved m.name).map Model.markSelf := by
    simp [List.find?_map, Function.comp_def, Model.markSelf_name]
  have hindex : indexDocument (models.map Model.markSelf) enums style =
      indexDocument models enums style := by
    simp [indexDocument, Function.comp_def, Model.markSelf_name]
  unfold perModel
  rw [hfind, Context.of_markSelf, hindex]
  cases models.find? fun m => isReserved m.name with
  | some m => rfl
  | none =>
    simp only [Option.map_none, List.map_map, Function.comp_def, modelDocument, importsOf_markSelf,
      interface_markSelf, Model.markSelf_name]

end Frame

/-! ## Models of a batch -/

theorem forall_mem_positionsOf {P : Position → Prop} {fields : List Field} :
    (∀ p ∈ positionsOf fields, P p) ↔
      ∀ f ∈ fields, P (.field f) ∧ ∀ p ∈ f.shape.positions, P p := by
  induction fields with
  | nil => simp [positionsOf]
  | cons f fields ih =>
    obtain ⟨_, _, shape, _, _, _, _, _⟩ := f
    rw [positionsOf, List.forall_mem_cons, List.forall_mem_append, List.forall_mem_cons, ih, and_assoc]

theorem Field.ofRaw_unmarked (raw : RawField) (name : String) {fields : List Field}
    (hfields : ∀ p ∈ positionsOf fields, p.isMarked = false) :
    ∀ p ∈ (Field.ofRaw raw name fields).shape.positions, p.isMarked = false := by
  have hitem : ∀ p ∈ (raw.item fields).positions, p.isMarked = false := by
    unfold RawField.item
    split
    · simp [ItemType.positions]
    · simp [ItemType.positions]
    · simpa only [ItemType.positions] using hfields
    · simp [ItemType.positions]
  unfold Field.ofRaw
  cases raw.isArray.getD false with
  | true => exact List.forall_mem_cons.mpr ⟨rfl, hitem⟩
  | false => exact hitem

/-- Nothing is marked in a normalized model. -/
theorem Model.ofRaw_unmarked {raw : RawModel} {m : Model} (h : Model.ofRaw raw = .ok m) :
    ∀ p ∈ m.positions, p.isMarked = false := by
  refine forall_mem_positionsOf.mpr (Model.ofRaw_induct ?_ h).2
  intro raw name fields _ _ hfields
  exact ⟨rfl, Field.ofRaw_unmarked raw name (forall_mem_positionsOf.mpr hfields)⟩

section Unmarked

variable {m : Model} (h : ∀ p ∈ m.positions, p.isMarked = false)

include h

theorem Model.isMarked_markSelf :
    ∀ p ∈ m.markSelf.positions, p.isMarked = true ↔ p.target? = some m.name := by
  rw [Model.positions, Model.markSelf_eq, positionsOf_remarkAll]
  intro _ hp
  obtain ⟨p, hmem, rfl⟩ := List.mem_map.mp hp
  rw [Position.isMarked_remark, Position.target?_remark, h p hmem]
  simp [MarkRule.ofOwner]

theorem Model.countP_isMarked_markSelf (hne : m.name ≠ "") :
    m.markSelf.positions.countP Position.isMarked = m.targets.count m.name := by
  have htargets : m.markSelf.targets.count m.name = m.targets.count m.name := by
    rw [Model.targets_markSelf]
  rw [← htargets, Model.targets, count_targetsOf hne]
  refine List.countP_congr fun p hp => ?_
  simpa using Model.isMarked_markSelf h p hp

theorem Model.unmark_markSelf : m.markSelf.unmark = m := by
  -- Marks that are set and cleared again are cleared by one rule, and here there were none.
  have hfields : remarkAll MarkRule.clearing m.fields = m.fields :=
    remarkAll_eq_self m.fields fun p hp => (h p hp).symm
  rw [Model.markSelf_eq, Model.unmark, remarkAll_remarkAll]
  exact congrArg (fun fields => { m with fields }) hfields

omit h in
theorem Model.markSelf_markSelf (m : Model) : m.markSelf.markSelf = m.markSelf := by
  have hrule : (fun target marked =>
      MarkRule.ofOwner m.name target (MarkRule.ofOwner m.name target marked)) =
        MarkRule.ofOwner m.name := by
    funext target marked
    simp [MarkRule.ofOwner]
  rw [Model.markSelf_eq m, Model.markSelf_eq, remarkAll_remarkAll, hrule]

end Unmarked

open Declaration in
/-- In the models of a batch, exactly the references of a model to itself are marked, as many as the model
has itself among its targets. Without the marks the models are as before, and marking them again changes
nothing. The graph, the imports and the documents do not depend on the marks. -/
theorem marking_exact {models : List Model} (h : ∀ m ∈ models, ∃ raw, Model.ofRaw raw = .ok m) :
    (∀ m ∈ models,
      (∀ p ∈ m.markSelf.positions, p.isMarked = true ↔ p.target? = some m.name) ∧
      m.markSelf.positions.countP Position.isMarked = m.targets.count m.name ∧
      m.markSelf.unmark = m ∧ m.markSelf.markSelf = m.markSelf) ∧
    References.Graph.ofModels (models.map Model.markSelf) = References.Graph.ofModels models ∧
    ∀ enums style,
      (∀ m ∈ models, importsOf (Context.of (models.map Model.markSelf) enums style) m.markSelf =
        importsOf (Context.of models enums style) m) ∧
      combined (models.map Model.markSelf) enums style = combined models enums style ∧
      perModel (models.map Model.markSelf) enums style = perModel models enums style := by
  refine ⟨fun m hm => ?_, References.analyze_graph models, fun enums style => ⟨fun m _ => ?_, ?_, ?_⟩⟩
  · obtain ⟨raw, hraw⟩ := h m hm
    obtain ⟨hname, hne, -⟩ := Model.ofRaw_ok hraw
    have hunmarked := Model.ofRaw_unmarked hraw
    exact ⟨Model.isMarked_markSelf hunmarked,
      Model.countP_isMarked_markSelf hunmarked (hname ▸ hne),
      Model.unmark_markSelf hunmarked, Model.markSelf_markSelf m⟩
  · rw [Context.of_markSelf, importsOf_markSelf]
  · exact combined_markSelf models enums style
  · exact perModel_markSelf models enums style

/-- A raw model with itself as the target of a field, of an element, and of a field inside the elements of an
array. -/
def rawEmployee : RawModel :=
  { name := "Employee", sourceKind := "mongoose"
    fields := [{ name := some "manager", target := some "Employee", required := some false },
      { name := some "reports", isArray := some true, target := some "Employee" },
      { name := some "absences", isArray := some true, nested := some [
        { name := some "deputy", target := some "Employee" },
        { name := some "office", target := some "Office" }] }] }

/-- The model, with the given mark on its references to itself. -/
def employee (marked : Bool) : Model :=
  { name := "Employee", sourceKind := .mongoose, sourcePath := none, description := none
    fields := [⟨"manager", false, .single (.reference "Employee"), marked, none, false, false, none⟩,
      ⟨"reports", true, .array (.reference "Employee") marked, false, none, false, false, none⟩,
      ⟨"absences", true, .array (.object [
        ⟨"deputy", true, .single (.reference "Employee"), marked, none, false, false, none⟩,
        ⟨"office", true, .single (.reference "Office"), false, none, false, false, none⟩]) false, false,
          none, false, false, none⟩] }

theorem marking_exact_employee : Model.ofRaw rawEmployee = .ok (employee false) ∧
    (employee false).markSelf = employee true ∧
    (employee true).positions.countP Position.isMarked = 3 ∧
    (employee true).unmark = employee false ∧ (employee true).markSelf = employee true ∧
    References.Graph.ofModels [employee true] = References.Graph.ofModels [employee false] := by
  have hraw : Model.ofRaw rawEmployee = .ok (employee false) := rfl
  have hmarked : (employee false).markSelf = employee true := by
    simp [employee, Model.markSelf, markAll, Field.markSelf, ItemType.markSelf, ItemType.refersTo]
  have hcount : (employee false).targets.count (employee false).name = 3 := by
    simp [employee, Model.targets, targetsOf, Field.targets, ItemType.targets]
  have hmodels : ∀ m ∈ [employee false], ∃ raw, Model.ofRaw raw = .ok m := by
    simpa using ⟨rawEmployee, hraw⟩
  obtain ⟨hexact, hgraph, -⟩ := marking_exact hmodels
  obtain ⟨-, hmarks, hunmark, hagain⟩ := hexact (employee false) (List.mem_singleton.mpr rfl)
  rw [hmarked] at hmarks hunmark hagain
  rw [List.map_singleton, hmarked] at hgraph
  exact ⟨hraw, hmarked, hmarks.trans hcount, hunmark, hagain, hgraph⟩

end SchemaTypes
