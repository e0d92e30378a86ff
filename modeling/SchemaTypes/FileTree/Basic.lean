import SchemaTypes.Path
import SchemaTypes.Text.Lines
import SchemaTypes.Text.Quoted

/-!
# File trees

A file tree holds the files and directories that a run can see, each by its place: the names that
lead to it from the root. A path is followed from the root or from the home directory of the tree,
component by component, and every component but the last has to be a directory. Files hold bytes;
reading text decodes UTF-8 and unifies the line ends, writing text encodes UTF-8 and changes
nothing. A look at a path that leads nowhere finds nothing; only where a name is too long is a look
an error.

Results: `node?_put_self`, `node?_put_of_ne`, what a stored node changes; `decode_toUTF8`, an
encoded text is decoded as it was read.
-/

namespace SchemaTypes

/-- What stands at a place. -/
inductive Node where
  | file (bytes : ByteArray)
  | directory
  deriving Inhabited

/-- The places in use and the directory from which relative paths start. -/
structure FileTree where
  home : List String
  nodes : List (List String × Node)

/-- Why the system refuses a path. -/
inductive FileError where
  | notFound
  | denied
  | taken
  | notDirectory
  | isDirectory
  | nameTooLong
  deriving DecidableEq, Repr

namespace FileError

/-- The number under which the system knows the error. -/
def number : FileError → Nat
  | notFound => 2
  | denied => 13
  | taken => 17
  | notDirectory => 20
  | isDirectory => 21
  | nameTooLong => 36

/-- What the system says about its errors. -/
def texts : List (Nat × String) :=
  [(1, "Operation not permitted"), (2, "No such file or directory"), (3, "No such process"),
    (4, "Interrupted system call"), (5, "Input/output error"), (6, "No such device or address"),
    (7, "Argument list too long"), (8, "Exec format error"), (9, "Bad file descriptor"),
    (10, "No child processes"), (11, "Resource temporarily unavailable"),
    (12, "Cannot allocate memory"), (13, "Permission denied"), (14, "Bad address"),
    (15, "Block device required"), (16, "Device or resource busy"), (17, "File exists"),
    (18, "Invalid cross-device link"), (19, "No such device"), (20, "Not a directory"),
    (21, "Is a directory"), (22, "Invalid argument"), (23, "Too many open files in system"),
    (24, "Too many open files"), (25, "Inappropriate ioctl for device"), (26, "Text file busy"),
    (27, "File too large"), (28, "No space left on device"), (29, "Illegal seek"),
    (30, "Read-only file system"), (31, "Too many links"), (32, "Broken pipe"),
    (36, "File name too long"), (40, "Too many levels of symbolic links")]

/-- What the system says about the error with the given number. -/
def textOf (number : Int) : String :=
  match texts.find? fun entry => (entry.1 : Int) == number with
  | some entry => entry.2
  | none => "Unknown error " ++ toString number

/-- The message for an error at a path. -/
def messageOf (number : Int) (path : String) : String :=
  "[Errno " ++ toString number ++ "] " ++ textOf number ++ ": " ++ Text.quoted path

/-- The message for the error at a path. -/
def message (e : FileError) (path : String) : String :=
  messageOf e.number path

end FileError

namespace FileTree

/-- The node at a place among the given ones. -/
def find (place : List String) : List (List String × Node) → Option Node
  | [] => none
  | (p, node) :: rest => if p = place then some node else find place rest

/-- The node at a place. The root is always a directory. -/
def node? (tree : FileTree) (place : List String) : Option Node :=
  if place.isEmpty then some .directory else find place tree.nodes

/-- A node stored at a place, at the end or instead of the one that stands there. -/
def store (place : List String) (node : Node) :
    List (List String × Node) → List (List String × Node)
  | [] => [(place, node)]
  | (p, old) :: rest =>
    if p = place then (place, node) :: rest else (p, old) :: store place node rest

/-- The tree with a node stored at a place. -/
def put (tree : FileTree) (place : List String) (node : Node) : FileTree :=
  { tree with nodes := store place node tree.nodes }

theorem find_store_self (place : List String) (node : Node) (nodes : List (List String × Node)) :
    find place (store place node nodes) = some node := by
  induction nodes with
  | nil => simp [store, find]
  | cons e rest ih => by_cases h : e.1 = place <;> simp [store, find, h, ih]

theorem find_store_of_ne {place other : List String} (h : other ≠ place) (node : Node)
    (nodes : List (List String × Node)) :
    find other (store place node nodes) = find other nodes := by
  induction nodes with
  | nil => simp [store, find, h.symm]
  | cons e rest ih =>
    by_cases he : e.1 = place
    · simp [store, find, he, h.symm]
    · simp [store, find, he, ih]

theorem node?_put_self (tree : FileTree) {place : List String} (h : place ≠ []) (node : Node) :
    (tree.put place node).node? place = some node := by
  simp [node?, put, h, find_store_self]

theorem node?_put_of_ne (tree : FileTree) {place other : List String} (h : other ≠ place)
    (node : Node) : (tree.put place node).node? other = tree.node? other := by
  simp [node?, put, find_store_of_ne h]

/-! ## Following a path -/

/-- The longest name that a component may have, in bytes. -/
def nameLimit : Nat := 255

/-- The longest text that the system takes for a path, in bytes. -/
def pathLimit : Nat := 4095

/-- The place reached from `at` along the components. The last component may name nothing yet. -/
def follow (tree : FileTree) : (start : List String) → List String → Except FileError (List String)
  | start, [] => .ok start
  | start, part :: rest =>
    if part == ".." then tree.follow start.dropLast rest
    else if nameLimit < part.utf8ByteSize then .error .nameTooLong
    else if rest.isEmpty then .ok (start ++ [part])
    else
      match tree.node? (start ++ [part]) with
      | some .directory => tree.follow (start ++ [part]) rest
      | some (.file _) => .error .notDirectory
      | none => .error .notFound

/-- The place that a path leads to. -/
def place (tree : FileTree) (path : Path) : Except FileError (List String) :=
  if path.holdsNul then .error .notFound
  else if pathLimit < path.toString.utf8ByteSize then .error .nameTooLong
  else tree.follow (if path.isAbsolute then [] else tree.home) path.parts

/-- What the path leads to. -/
def get (tree : FileTree) (path : Path) : Except FileError Node := do
  match tree.node? (← tree.place path) with
  | some node => return node
  | none => throw .notFound

/-- Whether the path leads to a file or directory. -/
def has (tree : FileTree) (path : Path) : Bool :=
  (tree.get path).isOk

/-- Whether the path leads to a file. -/
def isFile (tree : FileTree) (path : Path) : Bool :=
  match tree.get path with
  | .ok (.file _) => true
  | _ => false

/-- Whether the path leads to a directory. -/
def isDirectory (tree : FileTree) (path : Path) : Bool :=
  match tree.get path with
  | .ok .directory => true
  | _ => false

/-- Why a path cannot be used: it cannot be handed to the system, or the system refuses it. -/
inductive PathFault where
  | nul
  | refused (error : FileError) (path : String)
  deriving DecidableEq, Repr

/-- What a message says about a path that cannot be used. -/
def PathFault.message : PathFault → String
  | nul => "embedded null byte"
  | refused e path => e.message path

/-- Why the system does not even look at the path. -/
def lookFault? (tree : FileTree) (path : Path) : Option PathFault :=
  match tree.get path with
  | .error .nameTooLong => some (.refused .nameTooLong path.toString)
  | _ => none

/-! ## Reading -/

/-- Why a text cannot be read. -/
inductive ReadError where
  | system (error : FileError) (path : String)
  | notUtf8
  deriving DecidableEq

/-- The message for a text that cannot be read. -/
def ReadError.message : ReadError → String
  | system e path => e.message path
  | notUtf8 => "'utf-8' codec can't decode"

/-- The text that the bytes spell, with unified line ends. -/
def decode (bytes : ByteArray) : Option String :=
  (String.fromUTF8? bytes).map fun s => String.ofList (Text.unifyEnds s.toList)

theorem decode_toUTF8 (s : String) :
    decode s.toUTF8 = some (String.ofList (Text.unifyEnds s.toList)) := by
  have h : String.fromUTF8? s.toByteArray = some s := by
    simp [String.fromUTF8?, s.isValidUTF8]
    rfl
  simp [decode, h]

/-- The bytes of the file at a path. -/
def readBytes (tree : FileTree) (path : Path) : Except FileError ByteArray := do
  match ← tree.get path with
  | .file bytes => return bytes
  | .directory => throw .isDirectory

/-- The text of the file at a path. -/
def readText (tree : FileTree) (path : Path) : Except ReadError String :=
  match tree.readBytes path with
  | .error e => .error (.system e path.toString)
  | .ok bytes =>
    match decode bytes with
    | some text => .ok text
    | none => .error .notUtf8

/-! ## Writing -/

/-- A new directory at a path whose parent is one. -/
def makeDirectory (tree : FileTree) (path : Path) : Except FileError FileTree := do
  let place ← tree.place path
  match tree.node? place with
  | some _ => throw .taken
  | none => return tree.put place .directory

/-- A tree after an attempt, and the reason if the attempt failed. -/
structure Attempt where
  tree : FileTree
  failure : Option PathFault

/-- A failed attempt to make a directory does not matter if there is one. -/
def acceptDirectory (tree : FileTree) (path : Path) (e : FileError) : Attempt :=
  if tree.isDirectory path then ⟨tree, none⟩ else ⟨tree, some (.refused e path.toString)⟩

/-- A directory at a path and at every path above it, where none is yet. `depth` bounds the
directories above the path. -/
def ensureDirectory (tree : FileTree) : (depth : Nat) → Path → Attempt
  | depth, path =>
    if path.holdsNul then ⟨tree, some .nul⟩
    else
      match tree.makeDirectory path with
      | .ok made => ⟨made, none⟩
      | .error .notFound =>
        match depth, path.parts with
        | depth + 1, _ :: _ =>
          let above := tree.ensureDirectory depth path.parent
          if above.failure.isSome then above
          else
            match above.tree.makeDirectory path with
            | .ok made => ⟨made, none⟩
            | .error e => above.tree.acceptDirectory path e
        | _, _ => ⟨tree, some (.refused .notFound path.toString)⟩
      | .error e => tree.acceptDirectory path e

/-- The bytes stored as the file at a path whose parent is a directory. -/
def writeBytes (tree : FileTree) (path : Path) (bytes : ByteArray) : Except FileError FileTree := do
  let place ← tree.place path
  match tree.node? place with
  | some .directory => throw .isDirectory
  | _ => return tree.put place (.file bytes)

/-- The text stored as the file at a path, with the directories above it. -/
def writeText (tree : FileTree) (path : Path) (text : String) : Attempt :=
  let above := tree.ensureDirectory path.parts.length path.parent
  if above.failure.isSome then above
  else if path.holdsNul then ⟨above.tree, some .nul⟩
  else
    match above.tree.writeBytes path text.toUTF8 with
    | .ok written => ⟨written, none⟩
    | .error e => ⟨above.tree, some (.refused e path.toString)⟩

/-- The tree without what the path leads to and everything below. -/
def remove (tree : FileTree) (path : Path) : FileTree :=
  match tree.place path with
  | .ok place => { tree with nodes := tree.nodes.filter fun entry => !place.isPrefixOf entry.1 }
  | .error _ => tree

/-! ## Listing -/

/-- The empty tree with its home directory. -/
def empty (home : List String) : FileTree :=
  { home, nodes := ((List.range home.length).map fun n => (home.take (n + 1), .directory)) }

/-- Everything below the home directory, each by the names that lead to it from there. -/
def contents (tree : FileTree) : List (List String × Node) :=
  tree.nodes.filterMap fun (place, node) =>
    if tree.home.isPrefixOf place && tree.home.length < place.length then
      some (place.drop tree.home.length, node)
    else none

/-- The names in the directory at a place, with what they stand for. -/
def entries (tree : FileTree) (place : List String) : List (String × Node) :=
  tree.nodes.filterMap fun (p, node) =>
    if p.dropLast == place then p.getLast?.map (·, node) else none

/-- The directories at or below a place, each by the names that lead to it from there. -/
def directoriesBelow (tree : FileTree) (place : List String) : List (List String) :=
  [] :: tree.nodes.filterMap fun
    | (p, .directory) =>
      if place.isPrefixOf p && place.length < p.length then some (p.drop place.length) else none
    | (_, .file _) => none

end FileTree

end SchemaTypes
