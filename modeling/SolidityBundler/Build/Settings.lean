/-
Settings of a build.
-/
import SolidityBundler.Log
import SolidityBundler.Path.Tree

namespace SolidityBundler

/-- The compiler version that a build asks for. -/
inductive VersionChoice
  /-- Whichever is active. -/
  | active
  | named (version : Text)
  /-- A version was to be named, and no name was left. -/
  | lost
  deriving DecidableEq, Repr

def VersionChoice.name? : VersionChoice → Option Text
  | .named version => some version
  | .active | .lost => none

structure Settings where
  /-- The directory of everything that is written. -/
  buildPath : TreePath := .ofText "build"
  /-- The root of the project; every unit below it is an entry point. -/
  contractsPath : TreePath := .ofText "contracts"
  /-- The roots of libraries, the first one first. -/
  libraryRoots : List TreePath := [.ofText "node_modules"]
  /-- Whether warnings are printed; they are counted in any case. -/
  showWarnings : Bool := false
  compilerVersion : VersionChoice := .active
  optimizerEnabled : Bool := true
  /-- How often the code is expected to run; none if a number was to be given and was lost. -/
  optimizerRuns : Option Int := some 200
  /-- Whether log lines begin with time and level. -/
  richLog : Bool := false
  logLevel : Log.Level := .warning
  deriving DecidableEq, Repr

namespace Settings

def flattenedPath (s : Settings) : TreePath := s.buildPath.child "flattened"

def compiledPath (s : Settings) : TreePath := s.buildPath.child "compiled"

/-- How the log of a build is written at a given time. -/
def logStyle (s : Settings) (time : Text) : Log.Style :=
  { level := s.logLevel, rich := s.richLog, time }

end Settings

end SolidityBundler
