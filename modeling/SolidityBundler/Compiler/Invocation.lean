/-
Running the compiler.

A run installs the version that is asked for if it has to, hands over the batch, and turns the
ways in which that can fail into error diagnostics.  A run also lists what it asked the
compiler to do.
-/
import SolidityBundler.Compiler.Output
import SolidityBundler.Crash
import SolidityBundler.Json.Parser

namespace SolidityBundler

/-- The message of a failed run that came without one. -/
def defaultFailureMessage : Text := "An error occurred during execution"

/-- One run: its outcome, what was asked of the compiler, and what there is to tell. -/
structure CompilerRun where
  result : Except Crash CompilerOutput
  calls : List CompilerCall := []
  log : List Log.Entry := []

def invocationError (message : Text) : Diagnostic where
  severity := .error
  message := .proper ("[SOL-0010] solc failed: " ++ Text.trimBlanks message)

def CompilerOutput.failed (message : Text) : CompilerOutput :=
  { errors := [invocationError message] }

/-- The version to install before a run: the one asked for, if it is not there. -/
def missingVersion? (settings : Settings) (mayInstall : Bool) (compiler : Compiler) :
    Option Text :=
  settings.compilerVersion.name?.filter fun version =>
    mayInstall && !compiler.installed.contains (version.dropWhile (· == 'v'))

/-- The object that a failed compiler has printed, if that is what it printed. -/
def printedObject? (printed : Option Text) : Option Json :=
  (printed.bind Json.parse?).filter fun value => value matches .object _

/-- What an answer amounts to, for sources of the given names. -/
def CompilerAnswer.outcome (names : List Text) : CompilerAnswer → Except ShapeFault CompilerOutput
  | .output value => collectOutput value names
  | .failure message printed =>
      match printedObject? printed with
      | some value => collectOutput value names
      | none => .ok (.failed (message.getD defaultFailureMessage))
  | .notInstalled message => .ok (.failed message)

/-- What an answer amounts to for the first so many sources, as far as that goes without a
fault. -/
def CompilerAnswer.collectedBeforeFault (names : List Text) (answer : CompilerAnswer) :
    CompilerOutput :=
  ((List.range names.length).filterMap fun count =>
    (answer.outcome (names.take count)).toOption).getLastD {}

def invocationEntry (sources : Table Text Text) : Log.Entry :=
  .debug ("Invoking solc on " ++ Text.ofNat sources.size ++ " source(s)")

def invoke (settings : Settings) (compiler : Compiler) (sources : Table Text Text) :
    CompilerRun :=
  let input := CompilerInput.ofSources settings sources
  let version := settings.compilerVersion.name?
  let calls := [CompilerCall.compile input version]
  let answer := compiler.answer input version
  let log (output : CompilerOutput) := invocationEntry sources :: missingContractEntries output
  match answer.outcome sources.keys with
  | .ok output => { result := .ok output, calls, log := log output }
  | .error fault =>
      { result := .error (.output fault), calls
        log := log (answer.collectedBeforeFault sources.keys) }

def installEntry (version : Text) : Log.Entry := .info ("Installing solc " ++ version)

/-- Installs a version and hands the sources to the compiler. -/
def installAndInvoke (settings : Settings) (compiler : Compiler) (version : Text)
    (sources : Table Text Text) : CompilerRun :=
  let calls := [CompilerCall.install version]
  let log := [installEntry version]
  match compiler.install version with
  | some { cause, message } =>
      if cause.isReported then
        let problem : Text := "cannot install solc " ++ version ++ ": " ++ message
        { result := .ok (.failed problem), calls, log }
      else { result := .error (.install cause), calls, log }
  | none =>
      let run := invoke settings compiler sources
      { run with calls := calls ++ run.calls, log := log ++ run.log }

/-- Compiles some sources.  Without sources the compiler is not asked at all; a version that is
lost is missed as soon as there are any. -/
def compile (settings : Settings) (mayInstall : Bool) (compiler : Compiler)
    (sources : Table Text Text) : CompilerRun :=
  if sources.entries.isEmpty then { result := .ok {} }
  else if settings.compilerVersion = .lost then { result := .error .lostVersion }
  else
    match missingVersion? settings mayInstall compiler with
    | some version => installAndInvoke settings compiler version sources
    | none => invoke settings compiler sources

end SolidityBundler
