import SchemaTypes.Prisma.Schema

/-!
# Canonical schemas

A canonical schema is the plain text of a list of declarations. A block has its documentation above it,
its header on a line of its own, then one line for each value of an enum or each field of a model, and
its closing brace on the last line. A field has its documentation above it, and its attributes stand in
a fixed order.

A name is one word. Documentation is text without blanks at its ends, and the text of a default is an
expression: its texts in double quotes are closed, its parentheses are balanced outside them, and it has
no brace and no comment outside them. Neither has an end of a line in it.

`rawSchemaOf` says what such a text is to be read as.
-/

namespace SchemaTypes.Prisma

/-! ## Declarations -/

/-- A field as it is declared. -/
structure FieldDecl where
  docs : List String
  name : String
  typeName : String
  isArray : Bool
  isOptional : Bool
  isId : Bool
  isUnique : Bool
  defaultText : Option String
  deriving DecidableEq, Repr

/-- What stands between the braces of a block. -/
inductive Body where
  | values (values : List String)
  | fields (keyword : Keyword) (fields : List FieldDecl)
  deriving DecidableEq, Repr

/-- A block as it is declared. -/
structure Decl where
  docs : List String
  name : String
  body : Body
  deriving DecidableEq, Repr

/-- The keyword of a block. -/
def Body.keyword : Body → Keyword
  | .values _ => .enum
  | .fields keyword _ => keyword

/-! ## Texts -/

/-- The lines of documentation. -/
def docText (docs : List String) : List Char :=
  docs.flatMap fun doc => '/' :: '/' :: '/' :: ' ' :: doc.toList ++ ['\n']

/-- The attribute of a primary key. -/
def idKey : List Char := ['i', 'd']

/-- The attribute of a field whose values are all different. -/
def uniqueKey : List Char := ['u', 'n', 'i', 'q', 'u', 'e']

/-- The attribute that has the default of a field as its argument. -/
def defaultKey : List Char := ['d', 'e', 'f', 'a', 'u', 'l', 't']

/-- What is written if a flag is set. -/
def flagText (flag : Bool) (text : List Char) : List Char :=
  if flag then text else []

/-- The attribute of the given name, after a blank. -/
def attributeMark (name : List Char) : List Char :=
  ' ' :: '@' :: name

/-- The attribute for a default. -/
def defaultAttribute : Option String → List Char
  | none => []
  | some text => attributeMark defaultKey ++ '(' :: text.toList ++ [')']

namespace FieldDecl

/-- The attributes of a field, with a blank before each. -/
def attributeText (f : FieldDecl) : List Char :=
  flagText f.isId (attributeMark idKey) ++ flagText f.isUnique (attributeMark uniqueKey) ++
    defaultAttribute f.defaultText

/-- What follows the type of a field. -/
def suffix (f : FieldDecl) : List Char :=
  flagText f.isArray ['[', ']'] ++ flagText f.isOptional ['?'] ++ f.attributeText

/-- The line of a field. -/
def content (f : FieldDecl) : List Char :=
  f.name.toList ++ ' ' :: f.typeName.toList ++ f.suffix

/-- A field with its documentation. -/
def text (f : FieldDecl) : List Char :=
  docText f.docs ++ f.content ++ ['\n']

end FieldDecl

/-- The lines between the braces of a block. -/
def Body.text : Body → List Char
  | .values vs => vs.flatMap fun value => value.toList ++ ['\n']
  | .fields _ fs => fs.flatMap FieldDecl.text

/-- The line that opens a block, with the line feed after it. -/
def Decl.headerText (d : Decl) : List Char :=
  d.body.keyword.text.toList ++ ' ' :: d.name.toList ++ [' ', '\x7b', '\n']

/-- A block with its documentation. -/
def Decl.text (d : Decl) : List Char :=
  docText d.docs ++ d.headerText ++ d.body.text ++ ['\x7d', '\n']

/-- The canonical schema of declarations. -/
def schemaText (decls : List Decl) : List Char :=
  decls.flatMap Decl.text

/-! ## Which declarations are meant -/

/-- Whether no blank stands at either end. -/
def isTrimmed (s : String) : Bool :=
  Text.trim s.toList == s.toList

/-- Whether the text may stand on one line of documentation. -/
def isDoc (s : String) : Bool :=
  s != "" && isTrimmed s && s.toList.all fun c => !Text.isLineEnd c

/-- Whether the rest of an expression closes the text in quotes in which it starts, if it starts in one,
and all of the `depth` parentheses that are open. -/
def closes : Mode → (depth : Nat) → List Char → Bool
  | .code, depth, [] => depth == 0
  | _, _, [] => false
  | .code, depth, c :: cs =>
    if c = '"' then closes .string depth cs
    else if c = '(' then closes .code (depth + 1) cs
    else if c = ')' then 0 < depth && closes .code (depth - 1) cs
    else if c = '\x7b' ∨ c = '\x7d' ∨ c = '/' ∧ cs.head? = some '/' then false
    else closes .code depth cs
  | .string, depth, c :: cs =>
    if c = '"' then closes .code depth cs
    else if c = '\\' then closes .escape depth cs
    else closes .string depth cs
  | .escape, depth, _ :: cs => closes .string depth cs
  | .comment, _, _ => false

/-- Whether the text may be a default. -/
def isExpression (s : String) : Bool :=
  isTrimmed s && (s.toList.all fun c => c != '@' && !Text.isLineEnd c) && closes .code 0 s.toList

/-- Whether names, documentation and default of a field are what they should be. -/
def FieldDecl.isCanonical (f : FieldDecl) : Bool :=
  f.docs.all isDoc && Text.isName f.name && Text.isName f.typeName && f.defaultText.all isExpression

/-- Whether an enum has values, and all of them are names, or all fields are canonical. -/
def Body.isCanonical : Body → Bool
  | .values vs => !vs.isEmpty && vs.all Text.isName
  | .fields keyword fs => keyword.declaresFields && fs.all FieldDecl.isCanonical

/-- Whether names and documentation of a block and everything in it are what they should be. -/
def Decl.isCanonical (d : Decl) : Bool :=
  d.docs.all isDoc && Text.isName d.name && d.body.isCanonical

/-! ## What is declared -/

/-- The description that lines of documentation are. -/
def description : List String → Option String
  | [] => none
  | docs => some (Text.joinLines docs)

/-- The enums of a schema by their names. -/
def declaredEnums (decls : List Decl) : List (String × List String) :=
  decls.filterMap fun d =>
    match d.body with
    | .values values => some (d.name, values)
    | .fields _ _ => none

/-- What the type of a field says about its shape: it is the name of a scalar, of an enum of the schema
or, with a capital, of a model. -/
def shapeOf (enums : List (String × List String)) (typeName : String) : RawField :=
  match ScalarKind.ofPrisma? typeName, enums.lookup typeName with
  | some kind, _ => { scalar := some kind }
  | none, some values => { enumName := some typeName, enumValues := some values }
  | none, none =>
    if typeName.toList.head?.any Text.isCapital then { target := some typeName }
    else { scalar := some .unknown }

/-- The raw field that is declared. -/
def FieldDecl.raw (enums : List (String × List String)) (f : FieldDecl) : RawField :=
  { shapeOf enums f.typeName with
    name := some f.name
    required := some (!f.isOptional || f.isId)
    isArray := some f.isArray
    defaultValue := f.defaultText
    isPrimary := some f.isId
    isUnique := some f.isUnique
    description := Prisma.description f.docs
    typeToken := some f.typeName }

/-- The raw enum that is declared, if the block is an enum. -/
def Decl.rawEnum? (path : Option String) (d : Decl) : Option RawEnum :=
  match d.body with
  | .values values => some { name := d.name, values, sourcePath := path }
  | .fields _ _ => none

/-- The raw model that is declared, if the block is a model. -/
def Decl.rawModel? (path : Option String) (enums : List (String × List String)) (d : Decl) :
    Option RawModel :=
  match d.body with
  | .values _ => none
  | .fields _ fields =>
    some { name := d.name, fields := fields.map (FieldDecl.raw enums)
           sourceKind := SourceKind.prisma.text, sourcePath := path
           description := Prisma.description d.docs }

/-- The raw schema that is declared. -/
def rawSchemaOf (path : Option String) (decls : List Decl) : RawSchema :=
  { models := decls.filterMap (Decl.rawModel? path (declaredEnums decls))
    enums := decls.filterMap (Decl.rawEnum? path) }

end SchemaTypes.Prisma
