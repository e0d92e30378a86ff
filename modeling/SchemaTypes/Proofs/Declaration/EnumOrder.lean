import Mathlib.Data.List.Nodup
import SchemaTypes.Proofs.Declaration.Imports

/-!
# The order of enums

Where the style asks for sorted enums, documents declare and export the enums in the order of their names.
Enums with different names stand in one such order only, whatever the order in which they were declared.

Everything else in a document asks for the enums by name: a field for the enum that it names, a model for the
enums that it has to import. What is collected stands in the order of first use in the model. So the table of
enums counts as a set of names, and two contexts with the same names lead to the same texts.

Results:
* `orderedEnums_sorted`, `orderedEnums_eq_of_perm`: the order of sorted enums, and that there is only one.
* `Context.SameNames`, `interface_congr`, `importsOf_congr`: what depends on the names of a context alone.
* `documents_of_perm`: with sorted enums no document depends on the order of declarations.
-/

namespace SchemaTypes.Declaration

/-! ## Enums in order -/

section Order

variable {style : Style} {enums others : List EnumDefinition}

theorem orderedEnums_perm (enums : List EnumDefinition) (style : Style) :
    (orderedEnums style enums).Perm enums := by
  unfold orderedEnums
  split
  · exact .refl _
  · exact List.mergeSort_perm _ _

theorem names_orderedEnums_nodup (hnames : (enums.map (·.name)).Nodup) (style : Style) :
    ((orderedEnums style enums).map (·.name)).Nodup :=
  ((orderedEnums_perm enums style).map _).nodup_iff.mpr hnames

theorem orderedEnums_sorted (hsorted : style.enumOrder = .sorted) (enums : List EnumDefinition) :
    (orderedEnums style enums).Pairwise fun a b => a.name ≤ b.name := by
  have htrans (a b c : EnumDefinition) (hab : (!(decide (b.name < a.name))) = true)
      (hbc : (!(decide (c.name < b.name))) = true) : (!(decide (c.name < a.name))) = true := by
    simp only [Bool.not_eq_eq_eq_not, Bool.not_true, decide_eq_false_iff_not, String.not_lt] at *
    exact String.le_trans hab hbc
  have htotal (a b : EnumDefinition) :
      (!(decide (b.name < a.name)) || !(decide (a.name < b.name))) = true := by
    simp only [Bool.or_eq_true, Bool.not_eq_eq_eq_not, Bool.not_true, decide_eq_false_iff_not,
      String.not_lt]
    exact String.le_total a.name b.name
  have hordered := List.pairwise_mergeSort htrans htotal enums
  have hmerge : orderedEnums style enums =
      enums.mergeSort fun a b => !(decide (b.name < a.name)) := by
    simp only [orderedEnums, hsorted]
  rw [hmerge]
  refine hordered.imp fun hab => ?_
  simpa only [Bool.not_eq_eq_eq_not, Bool.not_true, decide_eq_false_iff_not, String.not_lt] using hab

/-- Enums with different names have one order only. -/
theorem orderedEnums_eq_of_perm (hsorted : style.enumOrder = .sorted)
    (hnames : (enums.map (·.name)).Nodup) (hperm : enums.Perm others) :
    orderedEnums style enums = orderedEnums style others := by
  refine List.Perm.eq_of_pairwise ?_
    (orderedEnums_sorted hsorted enums) (orderedEnums_sorted hsorted others)
    (((orderedEnums_perm enums style).trans hperm).trans (orderedEnums_perm others style).symm)
  intro a b ha hb hab hba
  have ha := (orderedEnums_perm enums style).subset ha
  have hb := hperm.symm.subset ((orderedEnums_perm others style).subset hb)
  exact List.inj_on_of_nodup_map hnames ha hb (String.le_antisymm hab hba)

/-- The names of sorted enums stand in strict order if they differ. -/
theorem names_orderedEnums_strict (hsorted : style.enumOrder = .sorted)
    (hnames : (enums.map (·.name)).Nodup) :
    ((orderedEnums style enums).map (·.name)).Pairwise (· < ·) := by
  have hle : ((orderedEnums style enums).map (·.name)).Pairwise (· ≤ ·) :=
    List.pairwise_map.mpr (orderedEnums_sorted hsorted enums)
  refine (hle.and (names_orderedEnums_nodup hnames style)).imp fun ⟨hle, hne⟩ => ?_
  exact String.not_le.mp fun hge => hne (String.le_antisymm hle hge)

end Order

/-! ## Contexts with the same names -/

/-- The contexts hold the same names, in any order, and ask for the same style. -/
structure Context.SameNames (ctx other : Context) : Prop where
  models : ∀ name, ctx.models.contains name = other.models.contains name
  enums : ∀ name, ctx.enums.contains name = other.enums.contains name
  style : ctx.style = other.style

theorem Context.sameNames_of_perm (models : List Model) (style : Style)
    {enums others : List EnumDefinition} (hperm : enums.Perm others) :
    (Context.of models enums style).SameNames (.of models others style) where
  models _ := rfl
  enums _ := (hperm.map (·.name)).contains_eq
  style := rfl

section SameNames

variable {ctx other : Context}

theorem enumType_congr (h : ctx.SameNames other) (name : Option String) (values : List String) :
    enumType ctx name values = enumType other name values := by
  cases name with
  | none => rfl
  | some name => rw [enumType, enumType, h.enums]

mutual

theorem itemType_congr (h : ctx.SameNames other) : ∀ (depth : Nat) (item : ItemType),
    itemType ctx depth item = itemType other depth item
  | _, .scalar kind => by rw [itemType, itemType, h.style]
  | _, .enum name values => by rw [itemType, itemType, enumType_congr h]
  | _, .reference target => by rw [itemType, itemType]
  | depth, .object fields => by rw [itemType, itemType, fieldLines_congr h depth fields]

theorem shapeType_congr (h : ctx.SameNames other) : ∀ (depth : Nat) (shape : Shape),
    shapeType ctx depth shape = shapeType other depth shape
  | depth, .single item => by
    cases item with
    | reference target => rw [shapeType, shapeType, h.style]
    | scalar kind => exact itemType_congr h depth (.scalar kind)
    | «enum» name values => exact itemType_congr h depth (.enum name values)
    | object fields => exact itemType_congr h depth (.object fields)
  | depth, .array item _ => by rw [shapeType, shapeType, itemType_congr h depth item]

theorem fieldLines_congr (h : ctx.SameNames other) : ∀ (depth : Nat) (fields : List Field),
    fieldLines ctx depth fields = fieldLines other depth fields
  | _, [] => rfl
  | depth, ⟨name, required, shape, _, _, _, _, description⟩ :: fields => by
    rw [fieldLines, fieldLines, shapeType_congr h (depth + 1) shape, fieldLines_congr h depth fields,
      h.style]

end

theorem interface_congr (h : ctx.SameNames other) (m : Model) : interface ctx m = interface other m := by
  rw [interface, interface, fieldLines_congr h, h.style]

namespace Imports

theorem addEnum_congr (h : ctx.SameNames other) (i : Imports) (name : Option String) :
    i.addEnum ctx name = i.addEnum other name := by
  cases name with
  | none => rfl
  | some name => rw [addEnum, addEnum, h.enums]

theorem addModel_congr (h : ctx.SameNames other) (owner : String) (i : Imports) (name : String) :
    i.addModel ctx owner name = i.addModel other owner name := by
  rw [addModel, addModel, h.models]

mutual

theorem addItem_congr (h : ctx.SameNames other) (owner : String) : ∀ (item : ItemType) (i : Imports),
    addItem ctx owner item i = addItem other owner item i
  | .scalar _, _ => by rw [addItem, addItem]
  | .enum name _, i => by rw [addItem, addItem, addEnum_congr h]
  | .reference target, i => by rw [addItem, addItem, addModel_congr h]
  | .object fields, i => by rw [addItem, addItem, addFields_congr h owner fields i]

theorem addShape_congr (h : ctx.SameNames other) (owner : String) : ∀ (shape : Shape) (i : Imports),
    addShape ctx owner shape i = addShape other owner shape i
  | .single item, i => by rw [addShape, addShape, addItem_congr h owner item i]
  | .array item _, i => by rw [addShape, addShape, addItem_congr h owner item i]

theorem addFields_congr (h : ctx.SameNames other) (owner : String) :
    ∀ (fields : List Field) (i : Imports), addFields ctx owner fields i = addFields other owner fields i
  | [], _ => rfl
  | ⟨_, _, shape, _, _, _, _, _⟩ :: fields, i => by
    rw [addFields, addFields, addShape_congr h owner shape i, addFields_congr h owner fields]

end

end Imports

theorem importsOf_congr (h : ctx.SameNames other) (m : Model) : importsOf ctx m = importsOf other m :=
  Imports.addFields_congr h m.name m.fields {}

theorem modelDocument_congr (h : ctx.SameNames other) (m : Model) :
    modelDocument ctx m = modelDocument other m := by
  rw [modelDocument, modelDocument, importsOf_congr h, interface_congr h]

end SameNames

/-! ## Documents -/

section Documents

variable {style : Style} {enums others : List EnumDefinition}

/-- Where enums are sorted, they are declared in strict order of their names, and neither the only document nor
the documents of a batch depend on the order in which they were declared. -/
theorem documents_of_perm (hsorted : style.enumOrder = .sorted) (hnames : (enums.map (·.name)).Nodup)
    (hperm : enums.Perm others) (models : List Model) :
    ((orderedEnums style enums).Perm enums ∧
      ((orderedEnums style enums).map (·.name)).Pairwise (· < ·)) ∧
    combined models enums style = combined models others style ∧
    perModel models enums style = perModel models others style := by
  have horder := orderedEnums_eq_of_perm hsorted hnames hperm
  have hsame := Context.sameNames_of_perm models style hperm
  refine ⟨⟨orderedEnums_perm enums style, names_orderedEnums_strict hsorted hnames⟩, ?_, ?_⟩
  · rw [combined, combined, horder, funext (interface_congr hsame)]
  · have henums : enumsDocument enums style = enumsDocument others style := by
      rw [enumsDocument, enumsDocument, horder]
    have hindex : indexDocument models enums style = indexDocument models others style := by
      rw [indexDocument, indexDocument, horder]
    simp only [perModel, henums, hindex, modelDocument_congr hsame]

/-- The enums of a batch in which only the first one is used. -/
def orderEnums : List EnumDefinition :=
  [orderState, ⟨"Currency", ["EUR", "USD"], none⟩]

/-- The documents of a batch for its enums in either order. They differ unless the enums are sorted. -/
theorem documents_of_perm_orders :
    (orderEnums.map (·.name)).Nodup ∧ orderEnums.Perm orderEnums.reverse ∧
      combined orders orderEnums { enumOrder := .sorted } =
        combined orders orderEnums.reverse { enumOrder := .sorted } ∧
      perModel orders orderEnums { enumOrder := .sorted } =
        perModel orders orderEnums.reverse { enumOrder := .sorted } ∧
      combined orders orderEnums {} ≠ combined orders orderEnums.reverse {} := by
  have hnames : (orderEnums.map (·.name)).Nodup := by decide
  have hperm : orderEnums.Perm orderEnums.reverse := (List.reverse_perm _).symm
  have hsorted : Style.enumOrder { enumOrder := .sorted } = .sorted := rfl
  obtain ⟨-, hcombined, hperModel⟩ := documents_of_perm hsorted hnames hperm orders
  exact ⟨hnames, hperm, hcombined, hperModel, by decide +kernel⟩

end Documents

end SchemaTypes.Declaration
