/-
The program.

A run reads its command line, carries out the command on a tree of files, and leaves its
messages, its exit status and the tree as it is afterwards.
-/
import SolidityBundler.Build.Run
import SolidityBundler.CommandLine.Arguments
import SolidityBundler.CommandLine.Excerpt

namespace SolidityBundler

namespace CommandLine

structure CommandResult where
  /-- The exit status, or why the command ended without one. -/
  status : Except Crash Nat
  output : List Text := []
  log : List Log.Entry := []
  tree : FileTree
  calls : List CompilerCall := []

/-! ### Commands -/

def successLines (report : Report) : List Text :=
  if report.hasErrors then [] else ["Build succeeded"]

/-- What there is to tell about a report that the run came to; the run may still end on it. -/
def concluded (settings : Settings) (tree : FileTree) (report : Except Crash Report) :
    Except Crash (Report × List Log.Entry) := do
  let report ← report
  return (report, ← reportEntries tree settings.showWarnings report)

def runBuild (settings : Settings) (compiler : Compiler) (tree : FileTree) : CommandResult :=
  let outcome := Build.run settings compiler tree
  match concluded settings outcome.tree outcome.report with
  | .error crash =>
      { status := .error crash, log := outcome.log, tree := outcome.tree, calls := outcome.calls }
  | .ok (report, entries) =>
      { status := .ok report.exitCode
        output := summaryLines report ++ successLines report
        log := outcome.log ++ entries
        tree := outcome.tree
        calls := outcome.calls }

def flattenedLines (settings : Settings) (report : Report) : List Text :=
  if report.flattened.isSome && !report.hasErrors then
    ["Flattened " ++ Text.ofNat report.flattenedFiles.length ++ " contract(s) into " ++
      settings.flattenedPath.toText]
  else []

def runFlatten (settings : Settings) (tree : FileTree) : CommandResult :=
  let flattened := Build.flatten settings tree
  match concluded settings flattened.tree flattened.report with
  | .error crash => { status := .error crash, log := flattened.log, tree := flattened.tree }
  | .ok (report, entries) =>
      { status := .ok report.exitCode
        output := summaryLines report ++ flattenedLines settings report
        log := flattened.log ++ entries
        tree := flattened.tree }

/-- The line of a listing for a unit: the tier that serves its name, and those shadowed. -/
def listingLine (index : UnitIndex) (unit : Text) : Text :=
  let shadowed (tiers : List Tier) : Text :=
    if tiers.isEmpty then [] else ", shadows " ++ Text.join ", " (tiers.map Tier.label)
  match index.tiersOf unit with
  | [] => unit ++ "  []"
  | tier :: others => unit ++ "  [" ++ tier.label ++ shadowed others ++ "]"

/-- The project unit that an entry names: as it stands, or as a path below the project root. -/
def entryName? (settings : Settings) (index : UnitIndex) (entry : Text) : Option Text :=
  if index.project.contains entry then some entry
  else
    let below := (settings.contractsPath.below? (.ofText entry)).map fun segments =>
      TreePath.toText { slashes := 0, segments }
    below.filter index.project.contains

def unreadableEntry (e : FileTree.LoadError) : Log.Entry :=
  .error ("error: [" ++ (Build.loadProblem e).1 ++ "] " ++ (Build.loadProblem e).2)

def unknownEntry (entry : Text) : Log.Entry :=
  .error ("error: [LOC-0010] entry '" ++ entry ++ "' is not a project source")

/-- Lists the units that an entry inlines, in order. -/
def runImports (settings : Settings) (entry : Text) (tree : FileTree) : CommandResult :=
  match Build.discover settings tree with
  | (.error e, log) => { status := .ok 1, log := log ++ [unreadableEntry e], tree }
  | (.ok index, log) =>
      match entryName? settings index entry with
      | none => { status := .ok 1, log := log ++ [unknownEntry entry], tree }
      | some name =>
          let (result, b) := (Bundler.ofIndex index).bundleAll [name]
          let bundling := result.toOption.getD { bundles := .empty, findings := b.findings }
          let units := (bundling.bundles.get? name).elim [] Bundle.units
          let log := log ++ b.log
          match allEntries tree bundling.diagnostics with
          | .error crash => { status := .error crash, log, tree }
          | .ok entries =>
              { status := .ok (if bundling.hasErrors then 1 else 0)
                output := units.map (listingLine index)
                log := log ++ entries
                tree }

def Command.run (command : Command) (settings : Settings) (compiler : Compiler)
    (tree : FileTree) : CommandResult :=
  match command with
  | .build => runBuild settings compiler tree
  | .flatten => runFlatten settings tree
  | .imports entry => runImports settings entry tree

/-! ### Whole runs -/

/-- The world that a run finds. -/
structure Surroundings where
  libraryPath : Option Text := none
  compiler : Compiler
  time : Text

structure ProgramResult where
  status : Except Crash Nat
  output : Text := []
  messages : Text := []
  tree : FileTree
  calls : List CompilerCall := []

def printed (lines : List Text) : Text := lines.flatMap (· ++ ['\n'])

def usageStatus : Nat := 2

/-- What is left by a run that has nothing to do. -/
def stopped (tree : FileTree) : Stop → ProgramResult
  | .usage e => { status := .ok usageStatus, messages := printed [e.message], tree }
  | .help => { status := .ok 0, tree }

/-- Carries out a command and prints what there is to tell. -/
def runCommand (surroundings : Surroundings) (command : Command) (settings : Settings)
    (tree : FileTree) : ProgramResult :=
  let result := command.run settings surroundings.compiler tree
  { status := result.status
    output := printed result.output
    messages := Log.render (some (settings.logStyle surroundings.time))
      (settingsEntries settings ++ result.log)
    tree := result.tree
    calls := result.calls }

def runProgram (surroundings : Surroundings) (words : List Text) (tree : FileTree) :
    ProgramResult :=
  match read words with
  | .error stop => stopped tree stop
  | .ok arguments =>
      match arguments.settings surroundings.libraryPath with
      | .error crash => { status := .error crash, tree }
      | .ok settings => runCommand surroundings arguments.command settings tree

end CommandLine

end SolidityBundler
