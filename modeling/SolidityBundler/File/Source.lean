/-
Source files in a tree.

Sources are found below a root: every file at any depth whose name has the ending of source
files, under the way that leads to it from the root.  The project has one root, which must be
there; libraries may have several, and a name that more than one of them provides belongs to
the first.
-/
import SolidityBundler.File.Tree
import SolidityBundler.Index.Basic
import SolidityBundler.Sorting

namespace SolidityBundler

namespace FileTree

/-! ### Finding -/

/-- The way to a source file from the directory at `root`, if `address` is that of one. -/
def sourceBelow? (root address : Address) (node : FileNode) : Option Address :=
  match node with
  | .directory => none
  | .file _ =>
      if root.isPrefixOf address && (address.drop root.length).getLast?.any isSourceName then
        some (address.drop root.length)
      else none

/-- The ways to all sources from the directory at `root`, in order. -/
def sourcesBelow (tree : FileTree) (root : Address) : List Address :=
  sortedDistinct (tree.nodes.entries.filterMap fun (address, node) =>
    sourceBelow? root address node)

def namedSources (tree : FileTree) (root : Address) : Table Text TreePath :=
  .ofList ((tree.sourcesBelow root).map fun way =>
    (SlashPath.ofSegments way, .absolute (root ++ way)))

/-- The sources below a root, by logical name. -/
def locate (tree : FileTree) (root : TreePath) : Except FileError (Table Text TreePath) :=
  match tree.follow root with
  | .found address .directory => .ok (tree.namedSources address)
  | .found _ (.file _) => .error (.rootNotDirectory root)
  | .free _ | .absent | .blocked => .error (.missingRoot root)

/-- The sources below the roots that are directories, each name from the first root that has
it. -/
def locateLibraries (tree : FileTree) (roots : List TreePath) : Table Text TreePath :=
  (roots.filterMap fun root => (tree.locate root).toOption).foldl Table.insertAllNew .empty

def missingRoots (tree : FileTree) (roots : List TreePath) : List TreePath :=
  roots.filter (!tree.isDirectory ·)

/-! ### Reading -/

inductive LoadError
  | file (error : FileError)
  | text (fault : Utf8.Fault)
  deriving DecidableEq, Repr

def load (tree : FileTree) (origin : Origin) (name : Text) (path : TreePath) :
    Except LoadError SourceUnit := do
  let bytes ← (tree.read path).mapError .file
  let text ← (Utf8.readSource bytes).mapError .text
  return .ofText origin name text (some path)

def loadAll (tree : FileTree) (origin : Origin) (sources : Table Text TreePath) :
    Except LoadError (Table Text SourceUnit) := do
  let units ← sources.entries.mapM fun (name, path) => do
    return (name, ← tree.load origin name path)
  return .ofList units

end FileTree

/-- The aliases of located sources.  The owner of a suffix is first looked up as a path; of
several names with one path the last one stands for it. -/
def locatedAliases (library : Table Text TreePath) : Table Text Text :=
  let nameAt : Table TreePath Text :=
    .ofList (library.entries.map fun (name, path) => (path, name))
  .ofList ((aliasTable library).entries.filterMap fun (suffix, path) =>
    (nameAt.get? path).map (suffix, ·))

/-- The index over located sources; those of the project are read first.  Every alias leads to a
name of the library, as only names of the library own suffixes. -/
def UnitIndex.ofFiles (tree : FileTree) (project library : Table Text TreePath) :
    Except FileTree.LoadError UnitIndex := do
  return {
    project := ← tree.loadAll .project project
    library := ← tree.loadAll .library library
    aliases := locatedAliases library }

end SolidityBundler
