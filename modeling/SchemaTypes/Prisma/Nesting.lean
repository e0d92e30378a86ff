/-!
# Brackets, strings and comments

A text in double quotes is opaque: brackets and comment marks inside it do not count, and a
backslash takes away the meaning of the character after it. A comment starts with two slashes and
ends before the next line feed. Braces are matched outside strings and comments; parentheses are
matched outside strings only, since they stand inside one line whose comment is gone.

Results: `closing?_lt`, a closing bracket stands inside the text; `stripComment_prefix`, taking off
a comment only shortens a text.
-/

namespace SchemaTypes.Prisma

/-- Where in a text a scan is. -/
inductive Mode where
  | code
  | string
  | escape
  | comment
  deriving DecidableEq, Repr

/-- A kind of bracket, and whether comments hide it. -/
structure Brackets where
  opening : Char
  closing : Char
  comments : Bool

/-- The brackets around a block. -/
def braces : Brackets := { opening := '\x7b', closing := '\x7d', comments := true }

/-- The brackets around arguments. -/
def parentheses : Brackets := { opening := '(', closing := ')', comments := false }

/-- The mode after a character, which may depend on the one that follows. -/
def Mode.after (comments : Bool) (mode : Mode) (c : Char) (ahead : Option Char) : Mode :=
  match mode with
  | .code =>
    if c = '"' then .string
    else if comments && c = '/' && ahead == some '/' then .comment
    else .code
  | .string => if c = '"' then .code else if c = '\\' then .escape else .string
  | .escape => .string
  | .comment => if c = '\n' then .code else .comment

/-- How many brackets are open after a character of code. -/
def Brackets.depthAfter (b : Brackets) (depth : Int) (c : Char) : Int :=
  if c = b.opening then depth + 1 else if c = b.closing then depth - 1 else depth

/-- The place of the closing bracket after which no bracket is open, counted from here. -/
def closingFrom (b : Brackets) : Mode → (depth : Int) → List Char → Option Nat
  | _, _, [] => none
  | mode, depth, c :: cs =>
    let next := mode.after b.comments c cs.head?
    if mode = .code then
      let now := b.depthAfter depth c
      if c = b.closing ∧ now = 0 then some 0 else (closingFrom b next now cs).map (· + 1)
    else (closingFrom b next depth cs).map (· + 1)

/-- The place of the bracket that closes the first one of the text. -/
def closing? (b : Brackets) (cs : List Char) : Option Nat :=
  closingFrom b .code 0 cs

theorem closingFrom_lt {b : Brackets} {mode : Mode} {depth : Int} {cs : List Char} {n : Nat}
    (h : closingFrom b mode depth cs = some n) : n < cs.length := by
  induction cs generalizing mode depth n with
  | nil => simp [closingFrom] at h
  | cons c cs ih =>
    simp only [closingFrom] at h
    split at h
    · split at h
      · simp only [Option.some.injEq] at h
        simp [← h]
      · obtain ⟨k, hk, rfl⟩ := Option.map_eq_some_iff.1 h
        simpa using ih hk
    · obtain ⟨k, hk, rfl⟩ := Option.map_eq_some_iff.1 h
      simpa using ih hk

theorem closing?_lt {b : Brackets} {cs : List Char} {n : Nat} (h : closing? b cs = some n) :
    n < cs.length :=
  closingFrom_lt h

/-- A line up to the comment in it, from the given mode on. -/
def stripFrom : Mode → List Char → List Char
  | _, [] => []
  | mode, c :: cs =>
    if mode = .code ∧ c = '/' ∧ cs.head? = some '/' then []
    else c :: stripFrom (mode.after false c cs.head?) cs

/-- A line without its comment. -/
def stripComment (line : List Char) : List Char :=
  stripFrom .code line

theorem stripFrom_prefix (mode : Mode) (cs : List Char) : stripFrom mode cs <+: cs := by
  induction cs generalizing mode with
  | nil => simp [stripFrom]
  | cons c cs ih =>
    simp only [stripFrom]
    split
    · exact List.nil_prefix
    · exact List.prefix_cons_inj c |>.2 (ih _)

theorem stripComment_prefix (line : List Char) : stripComment line <+: line :=
  stripFrom_prefix .code line

end SchemaTypes.Prisma
