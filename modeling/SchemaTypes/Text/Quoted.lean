import SchemaTypes.Text.Hex
import SchemaTypes.Text.Printable

/-!
# Quoted text in messages

A text that a message quotes stands between single quotes, or between double quotes if it holds a
single quote and no double quote. The backslash and the quote in use are escaped, and a character
that is not printable is written by its code.
-/

namespace SchemaTypes.Text

/-- The quote that stands around a text in a message. -/
def quoteFor (cs : List Char) : Char :=
  if cs.contains '\'' && !cs.contains '"' then '"' else '\''

/-- A character by its code, in the shortest of the three widths. -/
def codeEscape (c : Char) : List Char :=
  let n := c.toNat
  if n < 0x100 then '\\' :: 'x' :: hexText 2 n
  else if n < 0x10000 then '\\' :: 'u' :: hexText 4 n
  else '\\' :: 'U' :: hexText 8 n

/-- A character inside the given quotes. -/
def quotedChar (quote c : Char) : List Char :=
  if c == quote || c == '\\' then ['\\', c]
  else if c == '\n' then ['\\', 'n']
  else if c == '\r' then ['\\', 'r']
  else if c == '\t' then ['\\', 't']
  else if isPrintable c then [c]
  else codeEscape c

/-- A text as a message quotes it. -/
def quoted (s : String) : String :=
  let quote := quoteFor s.toList
  String.ofList (quote :: s.toList.flatMap (quotedChar quote) ++ [quote])

/-- A text that may be missing, as a message quotes it. -/
def quotedOrNone : Option String → String
  | some s => quoted s
  | none => "None"

/-- A list of texts as a message shows it. -/
def quotedList (xs : List String) : String :=
  "[" ++ ", ".intercalate (xs.map quoted) ++ "]"

end SchemaTypes.Text
