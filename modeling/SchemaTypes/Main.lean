import SchemaTypes.CommandLine.Program

/-!
# The program on a real file system

Everything below the working directory is read into a file tree, the command line is run on it, and
the files that changed are written back. Links are not followed into directories. No child process
is started here, so a module that needs one is reported as one whose process did not start.
-/

namespace SchemaTypes

/-- What is below a directory, each by the names that lead to it. -/
partial def nodesBelow (directory : String) (trail : List String) :
    IO (List (List String × Node)) := do
  let mut found := []
  for entry in ← (← IO.FS.realPath directory).readDir do
    let path := directory ++ "/" ++ entry.fileName
    let place := trail ++ [entry.fileName]
    match (← entry.path.symlinkMetadata).type with
    | .dir =>
      found := found ++ [(place, Node.directory)] ++ (← nodesBelow path place)
    | _ =>
      match ← (IO.FS.readBinFile path).toBaseIO with
      | .ok bytes => found := found ++ [(place, Node.file bytes)]
      | .error _ => pure ()
  return found

/-- The file tree of the working directory. -/
def workingTree : IO FileTree := do
  let home := (Path.ofString (← IO.FS.realPath ".").toString).parts
  let tree := FileTree.empty home
  return { tree with nodes := tree.nodes ++ (← nodesBelow "." home) }

/-- Whether a node has the given bytes. -/
def Node.holds (bytes : ByteArray) : Option Node → Bool
  | some (.file old) => old == bytes
  | _ => false

/-- The files of a tree that an earlier tree does not have, stored in the file system. -/
def storeChanges (before after : FileTree) : IO Unit := do
  for (place, node) in after.nodes do
    match node with
    | .file bytes =>
      if !Node.holds bytes (before.node? place) then
        IO.FS.createDirAll ("/" ++ "/".intercalate place.dropLast)
        IO.FS.writeBinFile ("/" ++ "/".intercalate place) bytes
    | .directory => pure ()

/-- The command line run in the working directory, with its exit status. -/
def runInPlace (words : List String) : IO UInt32 := do
  let tree ← workingTree
  let outcome := CommandLine.run { tree } words
  storeChanges tree outcome.tree
  for event in outcome.events do
    IO.eprintln event.toJson.compact
  match outcome.transcript with
  | .ok t =>
    IO.print t.output
    IO.eprint t.errors
    return UInt32.ofNat t.status
  | .error problem =>
    IO.eprintln problem.message
    return 1

end SchemaTypes

/-- The program. -/
def main (words : List String) : IO UInt32 :=
  SchemaTypes.runInPlace words
