/-
The command line of the program.

The program has options of its own and three commands with theirs.  Roots given behind the
command replace those given before it.  Library roots that are not given come from a search
path, whose entries are separated by colons, and last from the usual place; an empty value
counts as none where there is a default.

An option may have lost its value.  It still counts as given, and takes the place of one that
was given before it.  Where there is a default the default holds; a library root is missed at
once, the other values where they are used.
-/
import SolidityBundler.Build.Settings
import SolidityBundler.CommandLine.Grammar
import SolidityBundler.Crash

namespace SolidityBundler

namespace CommandLine

inductive Meaning
  | help
  | verbose
  | log
  | contracts
  | libraryRoot
  | buildPath
  | showWarnings
  | compilerVersion
  | optimizerRuns
  | noOptimizer
  deriving DecidableEq, Repr

inductive Command
  | build
  | flatten
  /-- Lists what an entry inlines. -/
  | imports (entry : Text)
  deriving DecidableEq, Repr

/-! ### The grammars -/

def programName : Text := "solb"

/-- Asks for help; every grammar has it. -/
def helpOption : OptionSpec Meaning := ⟨["-h", "--help"], .flag, .help⟩

def contractsOption : OptionSpec Meaning := ⟨["-c", "--contracts"], .value, .contracts⟩

def libraryRootOption : OptionSpec Meaning := ⟨["-L", "--library-root"], .value, .libraryRoot⟩

def buildPathOption : OptionSpec Meaning := ⟨["--build-path", "-b"], .value, .buildPath⟩

/-- The words that name commands; the last two name the same one. -/
def commandWords : List Text := ["build", "flatten", "imports", "deps"]

def programGrammar : Grammar Meaning where
  program := programName
  options := [
    helpOption,
    ⟨["-v", "--verbose"], .flag, .verbose⟩,
    ⟨["-l", "--log"], .flag, .log⟩,
    contractsOption,
    libraryRootOption]
  operand := .command "command" commandWords

def buildGrammar : Grammar Meaning where
  program := programName ++ " build"
  options := [
    helpOption,
    buildPathOption,
    contractsOption,
    libraryRootOption,
    ⟨["--show-warnings", "-w"], .flag, .showWarnings⟩,
    ⟨["--solc-version"], .value, .compilerVersion⟩,
    ⟨["--optimizer-runs"], .integer, .optimizerRuns⟩,
    ⟨["--no-optimizer"], .flag, .noOptimizer⟩]
  operand := .none

def flattenGrammar : Grammar Meaning where
  program := programName ++ " flatten"
  options := [helpOption, buildPathOption, contractsOption, libraryRootOption]
  operand := .none

def importsGrammar : Grammar Meaning where
  program := programName ++ " imports"
  options := [helpOption, contractsOption, libraryRootOption]
  operand := .single "entry"

def grammarOf (command : Text) : Grammar Meaning :=
  if command = "build" then buildGrammar
  else if command = "flatten" then flattenGrammar
  else importsGrammar

/-! ### From words to settings -/

structure Arguments where
  before : List (Given Meaning)
  behind : List (Given Meaning)
  command : Command

def isGiven (meaning : Meaning) (options : List (Given Meaning)) : Bool :=
  options.any (·.meaning == meaning)

/-- The values of an option, none for a lost one, in the order in which they were given. -/
def valuesOf (meaning : Meaning) (options : List (Given Meaning)) : List (Option Text) :=
  (options.filter (·.meaning == meaning)).map Given.value

/-- The last value of an option behind the command, or else before it. -/
def Arguments.last? (a : Arguments) (meaning : Meaning) : Option (Option Text) :=
  (valuesOf meaning (a.before ++ a.behind)).getLast?

/-- The path that an option gives; one that is not given or lost gives none, nor does an empty
one. -/
def Arguments.path? (a : Arguments) (meaning : Meaning) : Option TreePath :=
  ((a.last? meaning).join.filter (!·.isEmpty)).map TreePath.ofText

def searchPath (value : Option Text) : List Text :=
  ((value.getD []).split ':').filter (!·.isEmpty)

/-- The values for library roots: those given behind the command, or before it, or on the search
path. -/
def Arguments.libraryRoots (a : Arguments) (libraryPath : Option Text) : List (Option Text) :=
  match valuesOf .libraryRoot a.behind, valuesOf .libraryRoot a.before with
  | [], [] => (searchPath libraryPath).map some
  | [], roots => roots
  | roots, _ => roots

/-- The library root that a value gives. -/
def libraryRootOf : Option Text → Except Crash TreePath
  | some root => .ok (.ofText root)
  | none => .error .lostRoot

def Arguments.compilerVersion (a : Arguments) : VersionChoice :=
  match a.last? .compilerVersion with
  | none => .active
  | some none => .lost
  | some (some version) => .named version

def Arguments.optimizerRuns? (a : Arguments) : Option (Option Int) :=
  (a.last? .optimizerRuns).map (·.bind integerValue?)

/-- The log level for a number of requests to be verbose. -/
def levelFor (verbosity : Nat) : Log.Level :=
  if 3 ≤ verbosity then .debug else if 1 ≤ verbosity then .info else .warning

def Arguments.settings (a : Arguments) (libraryPath : Option Text) : Except Crash Settings := do
  let defaults : Settings := {}
  let roots ← (a.libraryRoots libraryPath).mapM libraryRootOf
  return {
    buildPath := (a.path? .buildPath).getD defaults.buildPath
    contractsPath := (a.path? .contracts).getD defaults.contractsPath
    libraryRoots := if roots.isEmpty then defaults.libraryRoots else roots
    showWarnings := isGiven .showWarnings a.behind
    compilerVersion := a.compilerVersion
    optimizerEnabled := !isGiven .noOptimizer a.behind
    optimizerRuns := a.optimizerRuns?.getD defaults.optimizerRuns
    richLog := isGiven .log a.before
    logLevel := levelFor (a.before.countP (·.meaning == .verbose)) }

def settingsEntries (settings : Settings) : List Log.Entry :=
  let quotedRoots := settings.libraryRoots.map fun root => ("'" ++ root.toText ++ "'" : Text)
  [.info ("Contracts root: '" ++ settings.contractsPath.toText ++ "'"),
   .info ("Library root(s): " ++ Text.join "," quotedRoots)]

/-! ### Reading a command line -/

/-- Why a command line asks for nothing to be done. -/
inductive Stop
  | usage (error : UsageError)
  | help
  deriving DecidableEq, Repr

def readWith (g : Grammar Meaning) (words : List Text) : Except Stop (Parsed Meaning) := do
  let parsed ← (g.parse words).mapError fun fault => .usage { program := g.program, fault }
  if isGiven .help parsed.options then throw .help
  (g.checkOperand parsed).mapError fun fault => .usage { program := g.program, fault }

def commandOf (word : Text) (operand : Option Text) : Command :=
  if word = "build" then .build
  else if word = "flatten" then .flatten
  else .imports (operand.getD [])

/-- Reads a command line.  Words without use are reported last, those before the command
first. -/
def read (words : List Text) : Except Stop Arguments := do
  let program ← readWith programGrammar words
  let word := program.operand.getD []
  let behind ← readWith (grammarOf word) program.behind
  let extras := program.extras ++ behind.extras
  if extras.isEmpty then
    return { before := program.options, behind := behind.options
             command := commandOf word behind.operand }
  else throw (.usage { program := programName, fault := .unrecognized extras })

end CommandLine

end SolidityBundler
