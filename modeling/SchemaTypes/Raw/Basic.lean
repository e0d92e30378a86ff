import SchemaTypes.Issue
import SchemaTypes.Scalar

/-!
# Raw models

A raw model is what a schema source yields before anything is checked: every attribute of a field
may be missing, and several that exclude each other may be present. In an array the attributes for
the shape describe the element. Normalization turns raw models into models.
-/

namespace SchemaTypes

/-- A field as a source yields it. An attribute that the shape needs and that has a value of the
wrong type makes the field ill-typed. -/
structure RawField where
  name : Option String := none
  scalar : Option ScalarKind := none
  required : Option Bool := none
  isArray : Option Bool := none
  enumName : Option String := none
  enumValues : Option (List String) := none
  target : Option String := none
  nested : Option (List RawField) := none
  defaultValue : Option String := none
  isPrimary : Option Bool := none
  isUnique : Option Bool := none
  description : Option String := none
  typeToken : Option String := none
  illTyped : Bool := false

instance : Inhabited RawField := ⟨{}⟩

namespace RawField

/-- How many statements about the shape there are. -/
def shapeCount (f : RawField) : Nat :=
  f.scalar.isSome.toNat + f.enumValues.isSome.toNat + f.target.isSome.toNat +
    f.nested.isSome.toNat

end RawField

/-- A model as a source yields it. The source kind is checked with the rest. -/
structure RawModel where
  name : String
  fields : List RawField
  sourceKind : String
  sourcePath : Option String := none
  description : Option String := none
  deriving Inhabited

/-- An enum as a source yields it. -/
structure RawEnum where
  name : String
  values : List String
  sourcePath : Option String := none
  illTyped : Bool := false
  deriving DecidableEq, Repr, Inhabited

/-- Everything that a source yields, with a warning for each part that was left out. -/
structure RawSchema where
  models : List RawModel := []
  enums : List RawEnum := []
  issues : List Issue := []
  deriving Inhabited

end SchemaTypes
