/-!
# Literals and property keys

A text literal stands between single quotes; a backslash and a single quote inside it are escaped. A
property key is written as it stands if it is an identifier and as a literal otherwise.
-/

namespace SchemaTypes.Declaration

/-- A character inside a literal. -/
def literalChar (c : Char) : List Char :=
  if c = '\\' ∨ c = '\'' then ['\\', c] else [c]

/-- The inside of a literal. -/
def literalBody (cs : List Char) : List Char :=
  cs.flatMap literalChar

/-- The literal of a text. -/
def literal (s : String) : String :=
  String.ofList ('\'' :: literalBody s.toList ++ ['\''])

/-- Whether an identifier may start with the character. -/
def startsIdentifier (c : Char) : Bool :=
  c.isAlpha || c == '_' || c == '$'

/-- Whether the character may stand in an identifier. -/
def continuesIdentifier (c : Char) : Bool :=
  c.isAlphanum || c == '_' || c == '$'

/-- Whether the text is an identifier. -/
def isIdentifier : List Char → Bool
  | [] => false
  | c :: cs => startsIdentifier c && cs.all continuesIdentifier

/-- The text without a line feed at its end. -/
def withoutLastFeed (cs : List Char) : List Char :=
  if cs.getLast? = some '\n' then cs.dropLast else cs

/-- The key of a property. A line feed at the end of a name does not count. -/
def propertyKey (name : String) : String :=
  if isIdentifier (withoutLastFeed name.toList) then name else literal name

/-- A choice between literals. -/
def union (values : List String) : String :=
  " | ".intercalate (values.map literal)

end SchemaTypes.Declaration
