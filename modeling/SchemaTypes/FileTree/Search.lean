import SchemaTypes.FileTree.Basic
import SchemaTypes.Glob

/-!
# Searching a directory

A search pattern is a relative path whose components may be name patterns. The component `**` leads
to the directory itself and to every directory below it. A pattern that ends with a separator asks
for a directory, so no file is found by it.
-/

namespace SchemaTypes.FileTree

/-- Why a text is no search pattern. -/
inductive PatternFault where
  | empty
  | absolute
  | mixedDepth
  deriving DecidableEq, Repr

/-- What a message says about a text that is no search pattern. -/
def PatternFault.message : PatternFault → String
  | empty => "Unacceptable pattern: ''"
  | absolute => "Non-relative patterns are unsupported"
  | mixedDepth => "Invalid pattern: '**' can only be an entire path component"

/-- One component of a search pattern. -/
inductive SearchStep where
  | anyDepth
  | name (s : String)
  | like (tokens : List Glob.Token)

/-- Whether two stars follow each other somewhere in the text. -/
def hasTwoStars : List Char → Bool
  | '*' :: '*' :: _ => true
  | _ :: cs => hasTwoStars cs
  | [] => false

/-- A component of a search pattern. -/
def SearchStep.ofPart (part : String) : Except PatternFault SearchStep :=
  let cs := part.toList
  if part == "**" then .ok .anyDepth
  else if hasTwoStars cs then .error .mixedDepth
  else if cs.any fun c => c == '*' || c == '?' || c == '[' then .ok (.like (Glob.parse cs))
  else .ok (.name part)

/-- A search pattern. -/
structure SearchPattern where
  steps : List SearchStep
  asksForDirectory : Bool

/-- The search pattern that a text spells. -/
def SearchPattern.ofString (s : String) : Except PatternFault SearchPattern := do
  if s == "" then throw .empty
  let path := Path.ofString s
  if path.isAbsolute then throw .absolute
  let steps ← path.parts.mapM SearchStep.ofPart
  return { steps, asksForDirectory := s.toList.getLast? == some '/' || steps.isEmpty }

/-- The names in the directory reached from `base` along `trail`. -/
def entriesAt (tree : FileTree) (base : Path) (trail : List String) : List (String × Node) :=
  match tree.place { base with parts := base.parts ++ trail } with
  | .ok place => tree.entries place
  | .error _ => []

/-- The directories at or below the one reached from `base` along `trail`. -/
def trailsBelow (tree : FileTree) (base : Path) (trail : List String) : List (List String) :=
  match tree.place { base with parts := base.parts ++ trail } with
  | .ok place => (tree.directoriesBelow place).map (trail ++ ·)
  | .error _ => []

/-- Whether a node may stand in front of further components. -/
def Node.mayLead (last : Bool) : Node → Bool
  | .directory => true
  | .file _ => last

/-- The trails from `base` that the steps describe, each continuing `trail`. -/
def trails (tree : FileTree) (base : Path) : List SearchStep → List String → List (List String)
  | [], trail => [trail]
  | .anyDepth :: steps, trail =>
    (tree.trailsBelow base trail).flatMap (tree.trails base steps)
  | .name s :: steps, trail =>
    let path := { base with parts := base.parts ++ trail ++ [s] }
    if if steps.isEmpty then tree.has path else tree.isDirectory path then
      tree.trails base steps (trail ++ [s])
    else []
  | .like tokens :: steps, trail =>
    ((tree.entriesAt base trail).filter fun entry =>
      Glob.matchTokens tokens entry.1.toList && Node.mayLead steps.isEmpty entry.2).flatMap
        fun entry => tree.trails base steps (trail ++ [entry.1])

/-- The files below a directory that a search pattern finds. -/
def search (tree : FileTree) (directory : Path) (pattern : SearchPattern) : List (List String) :=
  if pattern.asksForDirectory || !tree.isDirectory directory then []
  else (tree.trails directory pattern.steps []).filter fun trail =>
    tree.isFile { directory with parts := directory.parts ++ trail }

/-- The files below a directory that one of the search patterns finds and no unwanted name pattern
describes, each once and in order. -/
def findFiles (tree : FileTree) (directory : Path) (wanted unwanted : List String) :
    Except PatternFault (List Path) := do
  let found ← wanted.mapM fun text =>
    return tree.search directory (← SearchPattern.ofString text)
  let kept := found.flatten.filter fun trail =>
    !unwanted.any (Glob.describesPath ("/".intercalate trail))
  return Path.sort (kept.eraseDups.map fun trail =>
    { directory with parts := directory.parts ++ trail })

end SchemaTypes.FileTree
