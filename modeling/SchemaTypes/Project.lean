import SchemaTypes.FileTree.Basic
import SchemaTypes.Json.Reader
import SchemaTypes.Model.Basic

/-!
# Projects

The root of a project tells which schema language is in use: a Prisma schema at one of its usual
places, or a package description that depends on one of the packages of a language. Prisma wins
over Mongoose.
-/

namespace SchemaTypes.Project

/-- The usual places of a Prisma schema, in the order in which they are looked at. -/
def schemaPlaces : List (List String) :=
  [["schema.prisma"], ["prisma", "schema.prisma"], ["prisma", "schema", "schema.prisma"]]

/-- The first usual place below a root at which there is a file. -/
def schema? (tree : FileTree) (root : Path) : Option Path :=
  (schemaPlaces.map fun place => { root with parts := root.parts ++ place }).find? tree.isFile

/-- The names of the packages of Prisma. -/
def prismaPackages : List String := ["prisma", "@prisma/client"]

/-- The names of the packages of Mongoose. -/
def mongoosePackages : List String := ["mongoose"]

/-- The names of the packages in one section of a package description. -/
def packagesIn (description : Json) (section_ : String) : List String :=
  ((((description.get? section_).bind Json.obj?).getD []).map (·.1))

/-- The names of the packages on which the project depends. A description that cannot be read names
none. -/
def packages (tree : FileTree) (root : Path) : List String :=
  match tree.readText (root.child "package.json") with
  | .error _ => []
  | .ok text =>
    match Json.read? Json.settingsRules text with
    | none => []
    | some description =>
      packagesIn description "dependencies" ++ packagesIn description "devDependencies"

/-- Whether the project uses Prisma. -/
def usesPrisma (tree : FileTree) (root : Path) : Bool :=
  (schema? tree root).isSome || prismaPackages.any (packages tree root).contains

/-- Whether the project uses Mongoose. -/
def usesMongoose (tree : FileTree) (root : Path) : Bool :=
  mongoosePackages.any (packages tree root).contains

/-- The schema language of the project, if it can be told. -/
def sourceKind? (tree : FileTree) (root : Path) : Option SourceKind :=
  if usesPrisma tree root then some .prisma
  else if usesMongoose tree root then some .mongoose
  else none

end SchemaTypes.Project
