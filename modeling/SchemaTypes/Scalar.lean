/-!
# Scalar kinds

Every primitive type of a schema language is one of six kinds. Each language names its primitive
types by tokens; a kind has one spelling in the declarations, except that a date is spelled as the
options say.
-/

namespace SchemaTypes

/-- The kind of a primitive value. A date is text in ISO 8601 form and kept apart from other text;
an object is one without known fields. -/
inductive ScalarKind where
  | string
  | number
  | boolean
  | date
  | object
  | unknown
  deriving DecidableEq, Repr, Inhabited

namespace ScalarKind

/-- The kinds in their order. -/
def all : List ScalarKind := [string, number, boolean, date, object, unknown]

/-- The kind as it is written. -/
def text : ScalarKind → String
  | string => "string"
  | number => "number"
  | boolean => "boolean"
  | date => "date"
  | object => "object"
  | unknown => "unknown"

/-- The kind that a text names. -/
def ofText? (s : String) : Option ScalarKind :=
  all.find? fun kind => kind.text == s

/-- The kind in a declaration. -/
def spelling (dateType : String) : ScalarKind → String
  | string => "string"
  | number => "number"
  | boolean => "boolean"
  | date => dateType
  | object => "Record<string, unknown>"
  | unknown => "unknown"

/-! ## Tokens -/

/-- The primitive types of a Prisma schema. -/
def prismaTokens : List (String × ScalarKind) :=
  [("String", string), ("Int", number), ("Float", number), ("Decimal", number),
    ("BigInt", number), ("Boolean", boolean), ("DateTime", date), ("Json", object),
    ("Bytes", string), ("Unsupported", unknown)]

/-- The kind of a Prisma type. Arguments in parentheses do not matter. -/
def ofPrisma? (token : String) : Option ScalarKind :=
  prismaTokens.lookup (String.ofList (token.toList.takeWhile (· != '(')))

/-- The constructors of a Mongoose schema. -/
def mongooseTokens : List (String × ScalarKind) :=
  [("String", string), ("Number", number), ("Decimal128", number), ("Double", number),
    ("Int32", number), ("BigInt", number), ("Boolean", boolean), ("Date", date),
    ("Buffer", string), ("ObjectId", string), ("UUID", string), ("Mixed", object),
    ("Map", object), ("Object", object)]

/-- The objects through which a Mongoose constructor may be named, longest first. -/
def mongooseQualifiers : List String :=
  ["mongoose.Schema.Types.", "Schema.Types.", "mongoose.Types.", "Types."]

/-- A constructor without its qualifier. Only the first one that fits is taken off. -/
def unqualified (token : List Char) : List String → List Char
  | [] => token
  | q :: qs => if q.toList.isPrefixOf token then token.drop q.length else unqualified token qs

/-- The kind of a Mongoose constructor, qualified or not. -/
def ofMongoose? (token : String) : Option ScalarKind :=
  mongooseTokens.lookup (String.ofList (unqualified token.toList mongooseQualifiers))

end ScalarKind

end SchemaTypes
