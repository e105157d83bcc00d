/-
How a run ends without an outcome.

Most of what goes wrong becomes a diagnostic.  A few faults are not foreseen and end the run
where they happen; what was written before stays.
-/
import SolidityBundler.Compiler.Basic
import SolidityBundler.File.Tree
import SolidityBundler.Reported

namespace SolidityBundler

/-- Why a run ends without an outcome. -/
inductive Crash
  /-- An installation fails in a way that is not reported. -/
  | install (cause : InstallCause)
  | output (fault : ShapeFault)
  /-- A path that is to be read or written holds the null character. -/
  | nullInPath
  /-- A library root was to be given, and no path was left. -/
  | lostRoot
  /-- The compiler version was to be named, and no name was left. -/
  | lostVersion
  deriving DecidableEq, Repr

/-- What is told of a run without an outcome, where the words do not depend on the runtime. -/
def Crash.message? : Crash → Option Text
  | .install _ | .output _ | .lostRoot | .lostVersion => none
  | .nullInPath => some FileError.nullInPath.message

/-- Why a failed operation on files ends the run; most do not. -/
def FileError.crash? : FileError → Option Crash
  | .nullInPath => some .nullInPath
  | .access _ _ | .missingRoot _ | .rootNotDirectory _ => none

end SolidityBundler
