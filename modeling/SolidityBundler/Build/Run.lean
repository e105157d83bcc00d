/-
Builds.

A build finds and reads the sources, bundles every project unit, writes the bundles, compiles
them, traces the compiler's messages back, and writes the artifacts.  Each stage takes the
tree as the stage before left it.  A fatal error becomes a diagnostic with a code and ends the
build: `LOC-0010` when sources cannot be found or read, `LOC-0020` when one of them is no
text, `LOC-0030` when output cannot be written.  Bundles are written whatever was found wrong
with the import graph.
-/
import SolidityBundler.Build.Attribution
import SolidityBundler.Build.Report
import SolidityBundler.Compiler.Invocation
import SolidityBundler.File.Source
import SolidityBundler.Json.Printer

namespace SolidityBundler

namespace Build

/-! ### Finding the sources -/

def missingRootEntry (root : TreePath) : Log.Entry :=
  .warning ("Library root '" ++ root.toText ++ "' not found, skipping")

def foundEntry (project library : Nat) : Log.Entry :=
  .info ("Found " ++ Text.ofNat project ++ " sources, and " ++ Text.ofNat library ++
    " possible libraries")

def collisionEntry (collision : Collision) : Log.Entry :=
  .debug ("'" ++ collision.name ++ "': " ++ collision.winner.label ++ " shadows " ++
    collision.shadowed.label)

def indexEntries (index : UnitIndex) : List Log.Entry :=
  .debug ("Index holds " ++ Text.ofNat index.aliases.size ++ " library alias(es)") ::
    index.collisions.map collisionEntry

/-- Reads the sources below the roots of a build into an index. -/
def discover (settings : Settings) (tree : FileTree) :
    Except FileTree.LoadError UnitIndex × List Log.Entry :=
  let log := (tree.missingRoots settings.libraryRoots).map missingRootEntry ++
    [.stage "Discovering sources"]
  match tree.locate settings.contractsPath with
  | .error e => (.error (.file e), log)
  | .ok project =>
      let library := tree.locateLibraries settings.libraryRoots
      let log := log ++ [foundEntry project.size library.size]
      match UnitIndex.ofFiles tree project library with
      | .error e => (.error e, log)
      | .ok index => (.ok index, log ++ indexEntries index)

/-! ### Fatal errors -/

def fatal (code message : Text) : Diagnostic where
  severity := .error
  message := .proper ("[" ++ code ++ "] " ++ message)

/-- What sources that cannot be read are reported as, code first. -/
def loadProblem : FileTree.LoadError → Text × Text
  | .file e => ("LOC-0010", e.message)
  | .text fault => ("LOC-0020", "source is not valid UTF-8: " ++ fault.message)

def unreadable (e : FileTree.LoadError) : Report :=
  { diagnostics := [fatal (loadProblem e).1 (loadProblem e).2] }

/-- The report with the error that output could not be written, or how that ends the build. -/
def unwritable (report : Report) (e : FileError) : Except Crash Report :=
  match e.crash? with
  | some crash => .error crash
  | none => .ok { report with diagnostics := report.diagnostics ++ [fatal "LOC-0030" e.message] }

/-! ### Bundling -/

/-- A build after its bundles were written, or where it ended before. -/
structure Flattened where
  /-- The report, or why the build ended without one. -/
  report : Except Crash Report
  bundling : Option Bundling
  tree : FileTree
  log : List Log.Entry

def wroteBundlesEntry (settings : Settings) (count : Nat) : Log.Entry :=
  .info ("Wrote " ++ Text.ofNat count ++ " flattened source(s) to " ++
    settings.flattenedPath.toText)

/-- Bundles every project unit.  Names of project units are names of the index, so none of them
is unknown. -/
def bundleProject (index : UnitIndex) : Bundling × List Log.Entry :=
  let (result, b) := (Bundler.ofIndex index).bundleAll index.project.keys
  (result.toOption.getD { bundles := .empty, findings := b.findings }, b.log)

/-- Finds and reads the sources, bundles every project unit, and writes the bundles. -/
def flatten (settings : Settings) (tree : FileTree) : Flattened :=
  match discover settings tree with
  | (.error e, log) => { report := .ok (unreadable e), bundling := none, tree, log }
  | (.ok index, log) =>
      let (bundling, bundlingLog) := bundleProject index
      let log := log ++ .stage "Flattening contracts" :: bundlingLog
      let report : Report := { flattened := some bundling.diagnostics }
      match tree.writeTexts settings.flattenedPath bundling.contents.entries with
      | (.error e, tree) => { report := unwritable report e, bundling := some bundling, tree, log }
      | (.ok files, tree) =>
          { report := .ok { report with flattenedFiles := files }, bundling := some bundling, tree
            log := log ++ [wroteBundlesEntry settings files.length] }

/-! ### Compiling -/

def artifactText (artifact : Json) : Text := artifact.write ++ ['\n']

def artifactFiles (artifacts : Table Text Json) : List (Text × Text) :=
  artifacts.entries.map fun (name, artifact) => (name ++ ".json", artifactText artifact)

def wroteArtifactsEntry (settings : Settings) (count : Nat) : Log.Entry :=
  .info ("Wrote " ++ Text.ofNat count ++ " artifact(s) to " ++ settings.compiledPath.toText)

def attributed (bundling : Bundling) (output : CompilerOutput) :
    Except ShapeFault CompilerOutput := do
  return { output with
    errors := ← output.errors.mapM (Diagnostic.attribute bundling.bundles)
    warnings := ← output.warnings.mapM (Diagnostic.attribute bundling.bundles) }

/-- A finished build: its report, or why it ended without one; the tree it leaves; what was
asked of the compiler; and what there is to tell. -/
structure Outcome where
  report : Except Crash Report
  tree : FileTree
  calls : List CompilerCall := []
  log : List Log.Entry := []

/-- Writes the artifacts of an output and completes the report. -/
def finish (settings : Settings) (report : Report) (tree : FileTree) (output : CompilerOutput) :
    Except Crash Report × FileTree × List Log.Entry :=
  let report := { report with compiled := some output }
  match tree.writeTexts settings.compiledPath (artifactFiles output.artifacts) with
  | (.error e, tree) => (unwritable report e, tree, [])
  | (.ok files, tree) =>
      (.ok { report with artifactFiles := files }, tree,
        [wroteArtifactsEntry settings files.length])

/-- What the compiler made of the bundles, traced back to units, or why the build ends here. -/
def compiledOutput (bundling : Bundling) (run : CompilerRun) : Except Crash CompilerOutput := do
  (attributed bundling (← run.result)).mapError .output

/-- Compiles the bundles of a build and writes the artifacts. -/
def compileBundles (settings : Settings) (compiler : Compiler) (flattened : Flattened)
    (report : Report) (bundling : Bundling) : Outcome :=
  let run := compile settings true compiler bundling.contents
  let log := flattened.log ++ .stage "Compiling contracts" :: run.log
  match compiledOutput bundling run with
  | .error crash => { report := .error crash, tree := flattened.tree, calls := run.calls, log }
  | .ok output =>
      let (report, tree, writingLog) := finish settings report flattened.tree output
      { report, tree, calls := run.calls, log := log ++ writingLog }

/-- A whole build.  Nothing is compiled after a fatal error. -/
def run (settings : Settings) (compiler : Compiler) (tree : FileTree) : Outcome :=
  let flattened := flatten settings tree
  let flattened := { flattened with log := .info "Starting build..." :: flattened.log }
  let ended : Outcome :=
    { report := flattened.report, tree := flattened.tree, log := flattened.log }
  match flattened.report, flattened.bundling with
  | .ok report, some bundling =>
      if report.diagnostics.isEmpty then
        compileBundles settings compiler flattened report bundling
      else ended
  | _, _ => ended

end Build

end SolidityBundler
