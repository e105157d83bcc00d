/-
Source units.

A unit is one source file under its logical name.  A project unit and a library unit may
share a name, so a unit is identified by origin and name together.  Its import statements
are those of its text; the type keeps them beside the text.
-/
import SolidityBundler.Source.Import
import SolidityBundler.Path.Tree

namespace SolidityBundler

/-- Whether a unit belongs to the project or to a library. -/
inductive Origin
  | project
  | library
  deriving DecidableEq, Repr

/-- How an origin is written where units are listed for a reader. -/
def Origin.label : Origin → Text
  | .project => "project"
  | .library => "library"

/-- What identifies a unit. -/
structure UnitKey where
  origin : Origin
  name : Text
  deriving DecidableEq, Repr

structure SourceUnit where
  name : Text
  origin : Origin
  text : Text
  path : Option TreePath
  /-- The import statements of the text, in order. -/
  imports : List ImportEdge
  imports_eq : imports = importsOf name text
  deriving DecidableEq, Repr

namespace SourceUnit

def ofText (origin : Origin) (name text : Text) (path : Option TreePath) : SourceUnit where
  name
  origin
  text
  path
  imports := importsOf name text
  imports_eq := rfl

def key (unit : SourceUnit) : UnitKey := { origin := unit.origin, name := unit.name }

end SourceUnit

def sourceEnding : Text := ".sol"

/-- Whether a name is that of a source file. -/
def isSourceName (name : Text) : Bool := sourceEnding.isSuffixOf name

end SolidityBundler
