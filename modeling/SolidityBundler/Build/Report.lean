/-
The outcome of a build.

Problems come from three places: the build itself, the import graph, and the compiler.  The
report lists them in that order; a build with an error has failed.
-/
import SolidityBundler.Bundle.Bundling
import SolidityBundler.Compiler.Output

namespace SolidityBundler

/-- What came of a build, as far as it went. -/
structure Report where
  /-- Problems of the build itself. -/
  diagnostics : List Diagnostic := []
  /-- Problems of the import graph, once units were bundled. -/
  flattened : Option (List Diagnostic) := none
  /-- What the compiler gave, once it ran. -/
  compiled : Option CompilerOutput := none
  flattenedFiles : List TreePath := []
  artifactFiles : List TreePath := []

namespace Report

def errors (r : Report) : List Diagnostic :=
  r.diagnostics.filter Diagnostic.isError ++
    (r.flattened.getD []).filter Diagnostic.isError ++
    r.compiled.elim [] CompilerOutput.errors

def warnings (r : Report) : List Diagnostic :=
  r.diagnostics.filter Diagnostic.isWarning ++
    (r.flattened.getD []).filter Diagnostic.isWarning ++
    r.compiled.elim [] CompilerOutput.warnings

def hasErrors (r : Report) : Bool := !r.errors.isEmpty

def exitCode (r : Report) : Nat := if r.hasErrors then 1 else 0

end Report

end SolidityBundler
