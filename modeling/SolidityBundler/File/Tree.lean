/-
A tree of files.

Files and directories are kept under their addresses, the segments that lead to them from
the root; the root itself is a directory that is always there.  A path is followed segment by
segment from the root or from the current directory, `..` goes back up, and what the walk
meets decides which operation succeeds and how it fails otherwise.

There are files and directories only, and no links.  Names are texts: a file system may also
have names that are no UTF-8, which are read with lone surrogates in place of the other bytes
and cannot be written into a file as text.  No tree has such a name, and writing a text never
fails for its characters.
-/
import SolidityBundler.Path.Tree
import SolidityBundler.Table
import SolidityBundler.Text.Quoted
import SolidityBundler.Text.Utf8

namespace SolidityBundler

inductive FileNode
  | file (content : Bytes)
  | directory
  deriving DecidableEq, Repr

/-- The way to a file or directory from the root. -/
abbrev Address := List Text

/-- Why an operation on a path fails. -/
inductive FileProblem
  | missing
  | alreadyExists
  | notDirectory
  | isDirectory
  deriving DecidableEq, Repr

def FileProblem.number : FileProblem → Nat
  | .missing => 2
  | .alreadyExists => 17
  | .notDirectory => 20
  | .isDirectory => 21

def FileProblem.message : FileProblem → Text
  | .missing => "No such file or directory"
  | .alreadyExists => "File exists"
  | .notDirectory => "Not a directory"
  | .isDirectory => "Is a directory"

inductive FileError
  | access (problem : FileProblem) (path : TreePath)
  /-- There is nothing where sources are looked for. -/
  | missingRoot (root : TreePath)
  /-- Sources are looked for in something that is no directory. -/
  | rootNotDirectory (root : TreePath)
  /-- A path holds the null character, so it cannot be handed on at all. -/
  | nullInPath
  deriving DecidableEq, Repr

def FileError.message : FileError → Text
  | .access problem path =>
      "[Errno " ++ Text.ofNat problem.number ++ "] " ++ problem.message ++ ": " ++
        Text.quoted path.toText
  | .missingRoot root => "Source directory not found: " ++ root.toText
  | .rootNotDirectory root => "Source root is not a directory: " ++ root.toText
  | .nullInPath => "embedded null byte"

structure FileTree where
  nodes : Table Address FileNode
  /-- The address that relative paths start from. -/
  current : Address

namespace FileTree

/-! ### Following a path -/

/-- Where following a path leads. -/
inductive Place
  | found (address : Address) (node : FileNode)
  /-- Only the last segment is missing. -/
  | free (address : Address)
  /-- An earlier segment is missing. -/
  | absent
  /-- An earlier segment is a file. -/
  | blocked
  deriving DecidableEq, Repr

def node? (tree : FileTree) (address : Address) : Option FileNode :=
  if address.isEmpty then some .directory else tree.nodes.get? address

/-- Follows segments from the directory at `address`. -/
def followFrom (tree : FileTree) : (address : Address) → List Text → Place
  | address, [] => .found address .directory
  | address, segment :: rest =>
      if segment = SlashPath.up then tree.followFrom address.dropLast rest
      else
        let next := address ++ [segment]
        match tree.node? next, rest with
        | none, [] => .free next
        | none, _ => .absent
        | some .directory, _ => tree.followFrom next rest
        | some (.file content), [] => .found next (.file content)
        | some (.file _), _ => .blocked

/-- The address that a path starts from. -/
def startOf (tree : FileTree) (path : TreePath) : Address :=
  if path.slashes = 0 then tree.current else []

/-- Where a path leads; nowhere if it holds the null character. -/
def follow (tree : FileTree) (path : TreePath) : Place :=
  if path.hasNull then .absent else tree.followFrom (tree.startOf path) path.segments

def isDirectory (tree : FileTree) (path : TreePath) : Bool :=
  tree.follow path matches .found _ .directory

/-! ### Reading -/

def read (tree : FileTree) (path : TreePath) : Except FileError Bytes :=
  if path.hasNull then .error .nullInPath
  else
    match tree.follow path with
    | .found _ (.file content) => .ok content
    | .found _ .directory => .error (.access .isDirectory path)
    | .blocked => .error (.access .notDirectory path)
    | .free _ | .absent => .error (.access .missing path)

/-! ### Writing -/

def put (tree : FileTree) (address : Address) (node : FileNode) : FileTree :=
  { tree with nodes := tree.nodes.insert address node }

def makeDirectory (tree : FileTree) (path : TreePath) : Except FileProblem FileTree :=
  match tree.follow path with
  | .free address => .ok (tree.put address .directory)
  | .found _ _ => .error .alreadyExists
  | .blocked => .error .notDirectory
  | .absent => .error .missing

/-- Whether a directory that could not be made is there all the same. -/
def settle (tree : FileTree) (path : TreePath) (problem : FileProblem) :
    Except FileError Unit × FileTree :=
  (if tree.isDirectory path then .ok () else .error (.access problem path), tree)

/-- Makes a directory and, where it has to, those above it.  `trail` holds the segments of the
path, the last one first.  Directories that were made stay even if a later one fails. -/
def makeDirectoriesAlong (tree : FileTree) (slashes : Nat) :
    (trail : List Text) → Except FileError Unit × FileTree
  | [] =>
      let path : TreePath := { slashes, segments := [] }
      match tree.makeDirectory path with
      | .ok tree => (.ok (), tree)
      | .error problem => tree.settle path problem
  | segment :: above =>
      let path : TreePath := { slashes, segments := (segment :: above).reverse }
      match tree.makeDirectory path with
      | .ok tree => (.ok (), tree)
      | .error .missing =>
          match tree.makeDirectoriesAlong slashes above with
          | (.error e, tree) => (.error e, tree)
          | (.ok (), tree) =>
              match tree.makeDirectory path with
              | .ok tree => (.ok (), tree)
              | .error problem => tree.settle path problem
      | .error problem => tree.settle path problem

/-- Makes a directory with all directories above it, unless it is there. -/
def makeDirectories (tree : FileTree) (path : TreePath) : Except FileError Unit × FileTree :=
  if path.hasNull then (.error .nullInPath, tree)
  else tree.makeDirectoriesAlong path.slashes path.segments.reverse

/-- Writes a file into a directory that is there. -/
def writeFile (tree : FileTree) (path : TreePath) (content : Bytes) :
    Except FileError Unit × FileTree :=
  if path.hasNull then (.error .nullInPath, tree)
  else
    match tree.follow path with
    | .free address | .found address (.file _) => (.ok (), tree.put address (.file content))
    | .found _ .directory => (.error (.access .isDirectory path), tree)
    | .blocked => (.error (.access .notDirectory path), tree)
    | .absent => (.error (.access .missing path), tree)

/-- Writes a text with all directories above it.  It fails only for its path. -/
def writeText (tree : FileTree) (path : TreePath) (text : Text) :
    Except FileError Unit × FileTree :=
  match tree.makeDirectories path.parent with
  | (.error e, tree) => (.error e, tree)
  | (.ok (), tree) => tree.writeFile path (Utf8.encode text)

/-- Writes texts one after the other below a directory; the first failure ends it, and what was
written before stays. -/
def writeTexts (tree : FileTree) (directory : TreePath) :
    List (Text × Text) → Except FileError (List TreePath) × FileTree
  | [] => (.ok [], tree)
  | (name, text) :: rest =>
      let path := directory.child name
      match tree.writeText path text with
      | (.error e, tree) => (.error e, tree)
      | (.ok (), tree) =>
          let (paths, tree) := tree.writeTexts directory rest
          (paths.map (path :: ·), tree)

/-! ### Building a tree -/

/-- The beginnings of an address, shortest first, without the root. -/
def waypoints : Address → List Address
  | [] => []
  | segment :: rest => [segment] :: (waypoints rest).map (segment :: ·)

/-- Makes directories at an address and on the way to it. -/
def putDirectories (tree : FileTree) (address : Address) : FileTree :=
  (waypoints address).foldl (fun tree a => tree.put a .directory) tree

/-- The tree that has only the current directory and those above it. -/
def empty (current : Address) : FileTree :=
  { nodes := Table.empty, current : FileTree }.putDirectories current

/-- The address that a path without `..` stands for. -/
def addressOf (tree : FileTree) (path : TreePath) : Address :=
  tree.startOf path ++ path.segments

/-- Puts a node at a path, with directories above it. -/
def place (tree : FileTree) (path : TreePath) (node : FileNode) : FileTree :=
  (tree.putDirectories (tree.addressOf path).dropLast).put (tree.addressOf path) node

/-- Takes the file or directory at a path away, with everything in it.  No run of the program does
so; it is for trees that change between two runs. -/
def remove (tree : FileTree) (path : TreePath) : FileTree :=
  { tree with nodes := tree.nodes.filter fun a _ => !(tree.addressOf path).isPrefixOf a }

/-! ### Comparing trees -/

def content? (tree : FileTree) (address : Address) : Option Bytes :=
  match tree.node? address with
  | some (.file content) => some content
  | _ => none

/-- The file at an address of a changed tree, if it is new or has new content. -/
def changedFile? (before : FileTree) (address : Address) (node : FileNode) :
    Option (Address × Bytes) :=
  match node with
  | .file content =>
      if before.content? address = some content then none else some (address, content)
  | .directory => none

def changes (before after : FileTree) : List (Address × Bytes) :=
  after.nodes.entries.filterMap fun (address, node) => before.changedFile? address node

end FileTree

end SolidityBundler
