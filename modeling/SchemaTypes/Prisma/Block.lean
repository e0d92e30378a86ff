import SchemaTypes.Prisma.Nesting
import SchemaTypes.Text.Blank
import SchemaTypes.Text.Lines
import SchemaTypes.Text.Word

/-!
# Blocks

A schema is a sequence of blocks: a header at the start of a line, which ends with an opening brace,
and the text up to the brace that closes it. What stands between the blocks does not matter, except
that the lines of a documentation comment directly above a header describe its block. A header
whose brace is never closed is passed over, and the scan goes on behind it.

Results: `nameAndBrace?_length`, a header is not empty; `length_body`, the body of a block fills
the space between its braces.
-/

namespace SchemaTypes.Prisma

/-- The first word of a block. -/
inductive Keyword where
  | model
  | enum
  | type
  | view
  | datasource
  | generator
  deriving DecidableEq, Repr, Inhabited

namespace Keyword

/-- The keywords in their order. -/
def all : List Keyword := [model, enum, type, view, datasource, generator]

/-- The keyword as it is written. -/
def text : Keyword → String
  | model => "model"
  | enum => "enum"
  | type => "type"
  | view => "view"
  | datasource => "datasource"
  | generator => "generator"

/-- Whether a block with this keyword declares fields. -/
def declaresFields : Keyword → Bool
  | model | type | view => true
  | _ => false

end Keyword

/-! ## Headers -/

/-- A header that stands at the front of a text, and the text behind its opening brace. -/
structure Header where
  keyword : Keyword
  name : String
  rest : List Char

/-- Whether the character may stand between the words of a header. -/
def isIndent (c : Char) : Bool :=
  c == ' ' || c == '\t'

/-- The text after a run of at least one blank of a header. -/
def afterGap? (cs : List Char) : Option (List Char) :=
  match cs with
  | c :: rest => if isIndent c then some (rest.dropWhile isIndent) else none
  | [] => none

/-- What follows the keyword of a header: a name and an opening brace. -/
def nameAndBrace? (cs : List Char) : Option (String × List Char) :=
  let name := cs.takeWhile Text.isWord
  if name.isEmpty then none
  else
    match (cs.dropWhile Text.isWord).dropWhile isIndent with
    | '\x7b' :: rest => some (String.ofList name, rest)
    | _ => none

/-- The header at the front of a text that starts a line. -/
def header? (cs : List Char) : Option Header :=
  let line := cs.dropWhile isIndent
  Keyword.all.findSome? fun keyword => do
    let (name, rest) ← nameAndBrace? (← afterGap? (← keyword.text.toList.isPrefixOf? line))
    return { keyword, name, rest }

/-! ## Documentation -/

/-- The text of a documentation line, if the line is one. -/
def docLine? (line : List Char) : Option String :=
  match Text.trim line with
  | '/' :: '/' :: '/' :: rest => some (String.ofList (Text.trim rest))
  | _ => none

/-- The documentation lines at the front, each with its text. -/
def docLines : List (List Char) → List String
  | [] => []
  | line :: lines =>
    match docLine? line with
    | some doc => doc :: docLines lines
    | none => []

/-- The documentation that ends a text. -/
def docAtEnd (text : List Char) : Option String :=
  match (docLines (Text.splitLines text).reverse).reverse with
  | [] => none
  | docs => some (Text.joinLines docs)

/-! ## Scanning -/

/-- A block. `start` and `stop` are the places of its header and of its closing brace in the text of
the source, `line` is the number of the line on which the header stands. -/
structure Block where
  keyword : Keyword
  name : String
  body : List Char
  description : Option String
  line : Nat
  sourcePath : Option String
  start : Nat
  stop : Nat
  deriving DecidableEq, Repr, Inhabited

/-- What a scan finds: a block, or a header whose brace is not closed. -/
inductive Found where
  | block (b : Block)
  | unclosed (keyword : Keyword) (name : String) (line : Nat) (sourcePath : Option String)
  deriving DecidableEq, Repr, Inhabited

/-- The block, if one was found. -/
def Found.block? : Found → Option Block
  | block b => some b
  | unclosed .. => none

/-- What a header opens. `before` is the text above it in reverse, `length` the length of the header.
With it comes the length of what is found. -/
def Header.found (h : Header) (sourcePath : Option String) (before : List Char) (length : Nat) :
    Found × Nat :=
  let line := before.count '\n' + 1
  match closing? braces (braces.opening :: h.rest) with
  | none => (.unclosed h.keyword h.name line sourcePath, length)
  | some n =>
    let start := before.length
    (.block { keyword := h.keyword, name := h.name, body := h.rest.take (n - 1)
              description := docAtEnd before.reverse, line, sourcePath, start
              stop := start + length + n - 1 }, length + n)

/-- The header here, if a line starts here. -/
def headerHere? (before cs : List Char) : Option Header :=
  if before.head?.all (· == '\n') then header? cs else none

/-- What the rest of a text holds, after `skip` characters of it that are already used. -/
def scanFrom (sourcePath : Option String) : (skip : Nat) → (before cs : List Char) → List Found
  | _, _, [] => []
  | skip + 1, before, c :: cs => scanFrom sourcePath skip (c :: before) cs
  | 0, before, c :: cs =>
    match headerHere? before (c :: cs) with
    | none => scanFrom sourcePath 0 (c :: before) cs
    | some h =>
      let (found, length) := h.found sourcePath before (cs.length + 1 - h.rest.length)
      found :: scanFrom sourcePath (length - 1) (c :: before) cs

/-- The blocks of a text and the headers that open none, in order. -/
def scan (sourcePath : Option String) (text : List Char) : List Found :=
  scanFrom sourcePath 0 [] text

/-! ## Lengths -/

theorem afterGap?_length {cs rest : List Char} (h : afterGap? cs = some rest) :
    rest.length < cs.length := by
  unfold afterGap? at h
  split at h
  · rename_i c tail
    split at h
    · simp only [Option.some.injEq] at h
      have := (List.dropWhile_suffix (l := tail) isIndent).length_le
      simp only [← h, List.length_cons]
      omega
    · simp at h
  · simp at h

theorem nameAndBrace?_length {cs rest : List Char} {name : String}
    (h : nameAndBrace? cs = some (name, rest)) : rest.length < cs.length := by
  have h1 := (List.dropWhile_suffix (l := cs) Text.isWord).length_le
  have h2 := (List.dropWhile_suffix (l := cs.dropWhile Text.isWord) isIndent).length_le
  simp only [nameAndBrace?] at h
  split at h
  · simp at h
  · split at h
    · rename_i heq
      simp only [Option.some.injEq, Prod.mk.injEq] at h
      rw [heq] at h2
      simp only [List.length_cons] at h2
      rw [← h.2]
      omega
    · simp at h

theorem length_body {b : Brackets} {rest : List Char} {n : Nat}
    (h : closing? b (b.opening :: rest) = some n) : (rest.take (n - 1)).length = n - 1 := by
  have := closing?_lt h
  simp only [List.length_cons] at this
  simp only [List.length_take]
  omega

end SchemaTypes.Prisma
