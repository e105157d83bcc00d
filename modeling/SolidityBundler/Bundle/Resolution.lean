/-
What an import specifier refers to.

A specifier is tried in three ways: as a name of the index; taken from the directory of the
importing unit, if it starts with `./` or `../`; and with all its relative segments dropped.
A relative path that leaves the root of all names is not tried.
-/
import SolidityBundler.Index.Basic

namespace SolidityBundler

/-- The name that a relative specifier has when it is taken from a unit's directory. -/
def relativeName (importer specifier : Text) : Text :=
  SlashPath.normalize (SlashPath.join (SlashPath.directory importer) specifier)

/-- Whether a normal path starts above the root of all names. -/
def leavesRoot (path : Text) : Bool := ['.', '.', '/'].isPrefixOf path

namespace UnitIndex

/-- The name that a specifier has beside its importer, if the index knows it. -/
def relativeName? (index : UnitIndex) (importer specifier : Text) : Option Text :=
  if SlashPath.isRelative specifier then
    let name := relativeName importer specifier
    if !leavesRoot name && index.contains name then some name else none
  else none

/-- What is left of a specifier without relative segments, if it had some and the index knows
the rest. -/
def strippedName? (index : UnitIndex) (specifier : Text) : Option Text :=
  let name := SlashPath.dropRelative specifier
  if !name.isEmpty && name != specifier && index.contains name then some name else none

/-- The name under which the index knows what `specifier` refers to in the unit `importer`. -/
def targetName? (index : UnitIndex) (importer specifier : Text) : Option Text :=
  if index.contains specifier then some specifier
  else (index.relativeName? importer specifier).or (index.strippedName? specifier)

def target? (index : UnitIndex) (importer specifier : Text) : Option SourceUnit :=
  (index.targetName? importer specifier).bind index.lookup?

end UnitIndex

end SolidityBundler
