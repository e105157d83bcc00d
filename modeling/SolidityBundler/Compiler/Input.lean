/-
What the compiler is given.

The compiler takes one batch of sources in its standard JSON form: the sources by name, the
optimizer settings, and the outputs that are asked for.
-/
import SolidityBundler.Build.Settings
import SolidityBundler.Json.Value
import SolidityBundler.Table

namespace SolidityBundler

structure CompilerInput where
  sources : Table Text Text
  optimizerEnabled : Bool
  optimizerRuns : Option Int

/-- The outputs that are asked for, of every contract of every source. -/
def outputSelection : List Text :=
  ["abi", "evm.bytecode", "evm.deployedBytecode", "metadata"]

def CompilerInput.ofSources (settings : Settings) (sources : Table Text Text) : CompilerInput where
  sources
  optimizerEnabled := settings.optimizerEnabled
  optimizerRuns := settings.optimizerRuns

/-- The number of runs as a value; the empty array stands for a lost one. -/
def encodeRuns (runs : Option Int) : Json := runs.elim (.array []) .integer

/-- The form in which a compiler outside of this library reads its input.  `Compiler` stands for one
that has read it, so nothing here depends on the form. -/
def CompilerInput.toJson (input : CompilerInput) : Json :=
  .ofMembers [
    ("language", .ofText "Solidity"),
    ("sources", .ofMembers (input.sources.entries.map fun (name, text) =>
      (name, .ofMembers [("content", .ofText text)]))),
    ("settings", .ofMembers [
      ("optimizer", .ofMembers [
        ("enabled", .bool input.optimizerEnabled),
        ("runs", encodeRuns input.optimizerRuns)]),
      ("outputSelection", .ofMembers [
        ("*", .ofMembers [("*", .array (outputSelection.map .ofText))])])])]

end SolidityBundler
