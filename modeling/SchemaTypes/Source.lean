import SchemaTypes.FileTree.Search
import SchemaTypes.Mongoose.Module
import SchemaTypes.Prisma.Schema
import SchemaTypes.Problem
import SchemaTypes.Project
import SchemaTypes.Settings

/-!
# Sources

A schema is read from a file or a directory. The files of a Prisma schema are those of its
directory, or the one at a usual place below it; the modules of a Mongoose schema are found by name
patterns. A missing source and a Prisma file that cannot be read end the run; a module that yields
no contract does not, unless the process that introspects it prints no text.
-/

namespace SchemaTypes

/-- What a run can see: the files, and how each child process ends that introspects a module, by
the place of the module below the home directory. -/
structure Workspace where
  tree : FileTree
  processes : List (String × Mongoose.ProcessOutcome) := []

/-- The directory in which a run takes place, as an absolute path. -/
def Workspace.root (ws : Workspace) : Path :=
  { root := "/", parts := ws.tree.home }

/-- How the process ends that introspects the module at a path. Without one it does not start. -/
def Workspace.outcome (ws : Workspace) (path : Path) : Mongoose.ProcessOutcome :=
  match ws.tree.place path with
  | .ok place =>
    (ws.processes.lookup ("/".intercalate (place.drop ws.tree.home.length))).getD
      (.notStarted FileError.notFound.number)
  | .error _ => .notStarted FileError.notFound.number

/-- How modules yield their contracts. -/
inductive ModuleLoader where
  | contract
  | node (runtime : Mongoose.Runtime)
  deriving DecidableEq, Repr, Inhabited

/-- Which files of a directory are modules, and how they yield their contracts. -/
structure ModuleSearch where
  includes : List String
  excludes : List String
  loader : ModuleLoader
  deriving DecidableEq, Repr, Inhabited

namespace ModuleSearch

/-- The files that hold contracts. -/
def contractFiles : List String := ["**/*.schema.json"]

/-- The files that hold programs. -/
def programFiles : List String := ["**/*.js", "**/*.cjs"]

/-- The files that hold no modules of the project. -/
def foreignFiles : List String := ["**/node_modules/**", "**/*.test.*", "**/*.spec.*"]

/-- The search that settings ask for. -/
def ofSettings (s : Settings) : ModuleSearch :=
  let (files, loader) := match s.loader with
    | .contract => (contractFiles, ModuleLoader.contract)
    | .node => (programFiles, .node { executable := s.nodeExecutable })
  { includes := s.includes.getD files, excludes := s.excludes.getD foreignFiles, loader }

end ModuleSearch

/-- A schema language together with the way in which its files are found. -/
inductive SchemaSource where
  | prisma
  | mongoose (search : ModuleSearch)
  deriving DecidableEq, Repr, Inhabited

/-- The source that settings ask for. -/
def SchemaSource.ofSettings (s : Settings) : SchemaSource :=
  match s.sourceKind with
  | .prisma => .prisma
  | .mongoose => .mongoose (.ofSettings s)

/-- A module that was loaded: what it yields, and how much a process printed for it. -/
structure LoadedModule where
  path : Path
  printed : Option Nat
  contract : Except Mongoose.ModuleFault Mongoose.Contract

/-- What was read from a source. -/
inductive Reading where
  | prisma (schema : Prisma.Schema)
  | mongoose (modules : List LoadedModule)

/-! ## Prisma -/

namespace Prisma

/-- The files of the schema at a location. -/
def schemaFiles (tree : FileTree) (location : Path) : Except Issue (List Path) :=
  let missing := Issue.sourceNotFound location.toString
  if !tree.has location then .error missing
  else if tree.isFile location then .ok [location]
  else
    let pattern : FileTree.SearchPattern :=
      { steps := [.like (Glob.parse "*.prisma".toList)], asksForDirectory := false }
    match Path.sort ((tree.search location pattern).map fun trail =>
        { location with parts := location.parts ++ trail }) with
    | [] =>
      match Project.schema? tree location with
      | some path => .ok [path]
      | none => .error missing
    | files => .ok files

/-- The source in a file. -/
def sourceInFile (tree : FileTree) (path : Path) : Except Issue Source :=
  match tree.readText path with
  | .ok text => .ok { path := some path.toString, text := text.toList }
  | .error (.system .notFound _) => .error (.sourceNotFound path.toString)
  | .error e =>
    .error (.sourceUnreadable ("Cannot read Prisma schema " ++ path.toString ++ ": " ++ e.message)
      (some path.toString))

/-- The schema at a location. -/
def readSchema (tree : FileTree) (location : Path) : Except Issue Schema := do
  let files ← schemaFiles tree location
  return Schema.ofSources (← files.mapM (sourceInFile tree))

end Prisma

/-! ## Mongoose -/

namespace Mongoose

/-- The modules at a location. -/
def moduleFiles (tree : FileTree) (search : ModuleSearch) (location : Path) :
    Except Problem (List Path) :=
  if !tree.has location then .error (.issue (.sourceNotFound location.toString))
  else if tree.isFile location then .ok [location]
  else (tree.findFiles location search.includes search.excludes).mapError .pattern

/-- The module at a path, loaded. -/
def load (ws : Workspace) (loader : ModuleLoader) (path : Path) : Except Problem LoadedModule :=
  match loader with
  | .contract => .ok { path, printed := none, contract := contractInFile ws.tree path }
  | .node runtime =>
    let outcome := ws.outcome path
    (contractOfOutcome runtime outcome).map fun contract =>
      { path, printed := outcome.printed?.map String.length, contract }

/-- The modules that are loaded before one of them ends the run. -/
def loadedBefore (ws : Workspace) (loader : ModuleLoader) : List Path → List LoadedModule
  | [] => []
  | path :: paths =>
    match load ws loader path with
    | .ok m => m :: loadedBefore ws loader paths
    | .error _ => []

end Mongoose

/-! ## Reading -/

/-- What the source at a location holds. Each source looks at its location first. -/
def SchemaSource.read (ws : Workspace) (location : Path) (source : SchemaSource) :
    Except Problem Reading :=
  match ws.tree.lookFault? location, source with
  | some fault, _ => .error (.path fault)
  | none, .prisma => ((Prisma.readSchema ws.tree location).mapError Problem.issue).map .prisma
  | none, .mongoose search => do
    let files ← Mongoose.moduleFiles ws.tree search location
    return .mongoose (← files.mapM (Mongoose.load ws search.loader))

/-- The modules with their contracts. -/
def LoadedModule.pair (m : LoadedModule) : Path × Except Mongoose.ModuleFault Mongoose.Contract :=
  (m.path, m.contract)

/-- What was read as a raw schema. -/
def Reading.raw : Reading → RawSchema
  | .prisma schema => schema.raw
  | .mongoose modules => (Mongoose.Schema.ofModules (modules.map LoadedModule.pair)).raw

end SchemaTypes
