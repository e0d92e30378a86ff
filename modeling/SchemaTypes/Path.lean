/-!
# Paths

A path is a root and the names that lead from there. A path without root starts at the directory
in which a run takes place. Reading a path drops what does not change where it leads: repeated
separators, a separator at the end and the component `.`; the component `..` is kept. Two
separators at the front are a root of their own, three or more count as one.
-/

namespace SchemaTypes

/-- A path: its root, which is empty for a relative path, and its components. -/
structure Path where
  root : String
  parts : List String
  deriving DecidableEq, Inhabited

namespace Path

/-- The pieces of a text between the given character. There is always one piece. -/
def splitAtChar (sep : Char) : List Char → List (List Char)
  | [] => [[]]
  | c :: cs =>
    if c = sep then [] :: splitAtChar sep cs
    else
      match splitAtChar sep cs with
      | [] => [[c]]
      | piece :: pieces => (c :: piece) :: pieces

/-- The components of a text, without those that lead nowhere. -/
def components (cs : List Char) : List String :=
  ((splitAtChar '/' cs).map String.ofList).filter fun part => part != "" && part != "."

/-- The root at the front of a text. -/
def rootOf : List Char → String
  | '/' :: '/' :: '/' :: _ => "/"
  | '/' :: '/' :: _ => "//"
  | '/' :: _ => "/"
  | _ => ""

/-- The path that a text spells. -/
def ofString (s : String) : Path :=
  { root := rootOf s.toList, parts := components s.toList }

/-- The text of a path. The path that leads nowhere is written as a point. -/
def toString (p : Path) : String :=
  if p.root == "" && p.parts.isEmpty then "." else p.root ++ "/".intercalate p.parts

instance : ToString Path := ⟨Path.toString⟩

/-- Whether the path does not depend on a current directory. -/
def isAbsolute (p : Path) : Bool :=
  p.root != ""

/-- The second path, starting from the first one unless it is absolute. -/
def join (p q : Path) : Path :=
  if q.isAbsolute then q else { p with parts := p.parts ++ q.parts }

/-- A text taken as a path that starts from this one. -/
def joinText (p : Path) (s : String) : Path :=
  p.join (ofString s)

/-- A component added at the end. -/
def child (p : Path) (name : String) : Path :=
  { p with parts := p.parts ++ [name] }

/-- The path without its last component. -/
def parent (p : Path) : Path :=
  { p with parts := p.parts.dropLast }

/-- The last component, or nothing. -/
def name (p : Path) : String :=
  p.parts.getLastD ""

/-- The part of a name from its last point on, unless that point starts or ends the name. -/
def extensionOf (name : List Char) : List Char :=
  let tail := (name.reverse.takeWhile (· != '.')).reverse
  if tail.length + 1 < name.length && !tail.isEmpty then '.' :: tail else []

/-- Whether the path holds the character that ends a text for the system. Such a path cannot be handed
to the system at all. -/
def holdsNul (p : Path) : Bool :=
  p.parts.any fun part => part.toList.contains '\x00'

/-- The extension of the last component. -/
def extension (p : Path) : String :=
  String.ofList (extensionOf p.name.toList)

/-- The path with every component `..` undone together with the one before it. At the root there
is nothing to undo. -/
def resolve (start : List String) (parts : List String) : List String :=
  parts.foldl (fun done part => if part == ".." then done.dropLast else done ++ [part]) start

/-- The order of paths: by their components, an earlier component decides. -/
def partsBefore : List String → List String → Bool
  | [], _ => true
  | _ :: _, [] => false
  | a :: as, b :: bs => if a = b then partsBefore as bs else decide (a < b)

/-- The components by which a path is sorted; the root counts as the first one. -/
def sortKey (p : Path) : List String :=
  if p.isAbsolute then p.root :: p.parts else p.parts

/-- Paths in their order. -/
def sort (paths : List Path) : List Path :=
  paths.mergeSort fun p q => partsBefore p.sortKey q.sortKey

end Path

end SchemaTypes
