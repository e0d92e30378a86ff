import SchemaTypes.Scalar

/-!
# Models

A model is a named entity with fields. A field has exactly one shape: a single item or an array of
items, where an item is a scalar, one of some fixed texts, a reference to a model by name, or an
object with fields of its own. The types leave no other combination.

Names of fields may be any text. A self-reference is marked where the reference stands: at the
field for a single item, at the element for an array.

Results: `sortTexts_sorted`, sorted texts stand in order; `mem_duplicates_iff`, the duplicates of a
list are the texts that occur in it more than once.
-/

namespace SchemaTypes

/-- The schema language that a model was read from. -/
inductive SourceKind where
  | prisma
  | mongoose
  deriving DecidableEq, Repr, Inhabited

namespace SourceKind

/-- The language as it is written. -/
def text : SourceKind → String
  | prisma => "prisma"
  | mongoose => "mongoose"

/-- The languages by their texts. -/
def choices : List (String × SourceKind) :=
  [("prisma", prisma), ("mongoose", mongoose)]

end SourceKind

mutual

/-- What a single value is. A declared enum has a name, a list of texts in place has none. -/
inductive ItemType where
  | scalar (kind : ScalarKind)
  | enum (name : Option String) (values : List String)
  | reference (target : String)
  | object (fields : List Field)

/-- What a field holds. -/
inductive Shape where
  | single (item : ItemType)
  | array (item : ItemType) (isSelfReference : Bool)

/-- One attribute of a model or object. The default is a text of the source that is passed on as it
stands. -/
structure Field where
  name : String
  required : Bool
  shape : Shape
  isSelfReference : Bool
  defaultValue : Option String
  isPrimary : Bool
  isUnique : Bool
  description : Option String

end

deriving instance BEq, Repr for ItemType, Shape, Field

instance : Inhabited ItemType := ⟨.scalar .unknown⟩
instance : Inhabited Shape := ⟨.single default⟩
instance : Inhabited Field := ⟨⟨"", true, default, false, none, false, false, none⟩⟩

/-- The shape as it is written. -/
def Shape.text : Shape → String
  | .array _ _ => "array"
  | .single (.scalar _) => "scalar"
  | .single (.enum _ _) => "enum"
  | .single (.reference _) => "reference"
  | .single (.object _) => "nested"

/-- The item as it is written. -/
def ItemType.text (item : ItemType) : String :=
  (Shape.single item).text

/-- One named entity. -/
structure Model where
  name : String
  fields : List Field
  sourceKind : SourceKind
  sourcePath : Option String
  description : Option String
  deriving BEq, Repr, Inhabited

namespace Model

/-- The names of the fields, in order. -/
def fieldNames (m : Model) : List String :=
  m.fields.map (·.name)

/-- The first field of the given name. -/
def field? (m : Model) (name : String) : Option Field :=
  m.fields.find? fun f => f.name == name

end Model

/-- A declared enum. -/
structure EnumDefinition where
  name : String
  values : List String
  sourcePath : Option String
  deriving DecidableEq, Repr, Inhabited

/-! ## Duplicates -/

/-- Texts in their order. -/
def sortTexts (xs : List String) : List String :=
  xs.mergeSort fun a b => !(decide (b < a))

theorem sortTexts_sorted (xs : List String) : (sortTexts xs).Pairwise (· ≤ ·) := by
  have h := @List.pairwise_mergeSort String (fun a b => !(decide (b < a)))
    (fun a b c hab hbc => by
      simp only [Bool.not_eq_eq_eq_not, Bool.not_true, decide_eq_false_iff_not,
        String.not_lt] at *
      exact String.le_trans hab hbc)
    (fun a b => by
      simp only [Bool.or_eq_true, Bool.not_eq_eq_eq_not, Bool.not_true,
        decide_eq_false_iff_not, String.not_lt]
      exact String.le_total a b) xs
  refine h.imp ?_
  intro a b hab
  simpa only [Bool.not_eq_eq_eq_not, Bool.not_true, decide_eq_false_iff_not,
    String.not_lt] using hab

/-- The texts that occur more than once, each once and in order. -/
def duplicates (xs : List String) : List String :=
  sortTexts (xs.filter fun x => 1 < xs.count x).eraseDups

theorem mem_duplicates_iff (xs : List String) (x : String) :
    x ∈ duplicates xs ↔ 1 < xs.count x := by
  simp only [duplicates, sortTexts, List.mem_mergeSort, List.mem_eraseDups, List.mem_filter,
    decide_eq_true_eq, and_iff_right_iff_imp]
  intro h
  exact List.count_pos_iff.mp (by omega)

end SchemaTypes
