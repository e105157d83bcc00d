/-
Paths of files.

A path is read into the slashes in front of it and its segments.  Empty and `.` segments
are dropped on reading, `..` stays, and the path without segments prints as `.`.
-/
import SolidityBundler.Path.Slash

namespace SolidityBundler

structure TreePath where
  /-- How many slashes stand in front: none, one, or two. -/
  slashes : Nat
  segments : List Text
  deriving DecidableEq, Repr

namespace TreePath

/-- Whether a segment counts when a path is read. -/
def isNamed (segment : Text) : Bool := !segment.isEmpty && segment != SlashPath.here

def ofText (text : Text) : TreePath where
  slashes := SlashPath.rootSlashes text
  segments := (SlashPath.segments text).filter isNamed

def toText (path : TreePath) : Text :=
  let text := List.replicate path.slashes '/' ++ SlashPath.ofSegments path.segments
  if text.isEmpty then SlashPath.here else text

def absolute (segments : List Text) : TreePath := { slashes := 1, segments }

/-- The path that `name` has when it is taken from `base`. -/
def child (base : TreePath) (name : Text) : TreePath :=
  let path := ofText name
  if path.slashes = 0 then { base with segments := base.segments ++ path.segments } else path

def parent (path : TreePath) : TreePath := { path with segments := path.segments.dropLast }

/-- The last segment, empty if there is none. -/
def name (path : TreePath) : Text := path.segments.getLastD []

def hasNull (path : TreePath) : Bool := path.segments.any (·.contains '\x00')

/-- The segments of `path` below `base`, when it lies there. -/
def below? (base path : TreePath) : Option (List Text) :=
  if base.slashes = path.slashes ∧ base.segments.isPrefixOf path.segments then
    some (path.segments.drop base.segments.length)
  else none

/-- A file name without its last dot and what follows it.  A dot at either end of the name
is part of it. -/
def stemOf (name : Text) : Text :=
  let stem := (name.reverse.dropWhile (· != '.')).drop 1
  if stem.isEmpty || name.getLast? == some '.' then name else stem.reverse

def stem (path : TreePath) : Text := stemOf path.name

end TreePath

end SolidityBundler
