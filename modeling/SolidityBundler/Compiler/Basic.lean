/-
The compiler seen from outside.

The compiler is no part of this library: it is given by what it has installed, what an
installation does, and what it answers to a batch.
-/
import SolidityBundler.Compiler.Input

namespace SolidityBundler

/-- Why an installation fails. -/
inductive InstallCause
  | installation
  | download
  | unexpectedVersion
  | invalidVersion
  /-- The operating system or the network refuses. -/
  | system
  | notInstalled
  | compilation
  | internal
  deriving DecidableEq, Repr

structure InstallFailure where
  cause : InstallCause
  message : Text
  deriving DecidableEq, Repr

/-- Whether a failed installation is reported as a diagnostic; any other ends the run. -/
def InstallCause.isReported : InstallCause → Bool
  | .installation | .download | .unexpectedVersion | .invalidVersion | .system => true
  | .notInstalled | .compilation | .internal => false

/-- What the compiler answers to a batch. -/
inductive CompilerAnswer
  | output (value : Json)
  /-- It fails, with a message and with what it has printed, if it gave any. -/
  | failure (message printed : Option Text)
  /-- There is no compiler to run. -/
  | notInstalled (message : Text)

structure Compiler where
  installed : List Text
  /-- How the installation of a version fails, if it does. -/
  install : Text → Option InstallFailure
  /-- The answer to a batch, from a given version or the active one. -/
  answer : CompilerInput → Option Text → CompilerAnswer

inductive CompilerCall
  | install (version : Text)
  | compile (input : CompilerInput) (version : Option Text)

end SolidityBundler
