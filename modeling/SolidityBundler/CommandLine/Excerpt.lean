/-
Diagnostics with the lines they point at.

Below a diagnostic stands the line of the file that it points at, behind its number, and below
that line carets from the column to its end.  A message of the compiler has its own excerpt;
and where the file cannot be read, or has no such line, there is none.  A rendering that is no
text, and a file name that cannot be one, end the run.
-/
import SolidityBundler.Build.Report
import SolidityBundler.Crash

namespace SolidityBundler

namespace CommandLine

def entryFor (d : Diagnostic) (message : Text) : Log.Entry :=
  if d.isError then .error message else .warning message

/-- The lines of a file, none if it cannot be read as text. -/
def fileLines (tree : FileTree) (filename : Text) : Except Crash (List Text) :=
  match tree.read (.ofText filename) with
  | .ok bytes => .ok ((Utf8.readSource bytes).toOption.elim [] Text.boundaryLines)
  | .error e => e.crash?.elim (.ok []) .error

/-- The lines of the file that a diagnostic names; an empty name names none. -/
def namedLines (tree : FileTree) : Reported Text → Except Crash (List Text)
  | .proper filename => if filename.isEmpty then .ok [] else fileLines tree filename
  | .improper value => if value.isEmptyValue then .ok [] else .error (.output .wrongKind)

def gutterWidth (line : Int) : Nat := max 5 (Text.ofInt line).length

def numberedLine (line : Int) (source : Text) : Text :=
  Text.padLeft (gutterWidth line) ' ' (Text.ofInt line) ++ " | " ++ source

/-- Carets below a line, from a column to the end of the line; at least one. -/
def caretLine (line column : Int) (source : Text) : Text :=
  let first := (max 1 column).toNat
  List.replicate (gutterWidth line) ' ' ++ " | " ++ List.replicate (first - 1) ' ' ++
    List.replicate (max 1 (source.length + 1 - first)) '^'

/-- The lines below a diagnostic at a given line of a file. -/
def excerptLines (lines : List Text) (line : Int) (column : Option Int) : List Text :=
  if line < 1 then []
  else
    match lines[(line - 1).toNat]? with
    | none => []
    | some source =>
        numberedLine line source :: (column.map fun column => caretLine line column source).toList

def excerpt (tree : FileTree) (d : Diagnostic) : Except Crash (List Text) :=
  match d.formatted, d.filename, d.line with
  | none, some filename, some line =>
      (namedLines tree filename).map fun lines => excerptLines lines line d.column
  | _, _, _ => .ok []

def currentText (tree : FileTree) : Text := (TreePath.absolute tree.current).toText

def diagnosticEntries (tree : FileTree) (d : Diagnostic) : Except Crash (List Log.Entry) := do
  let message ← (d.render (currentText tree)).mapError .output
  return (message :: (← excerpt tree d)).map (entryFor d)

def allEntries (tree : FileTree) (diagnostics : List Diagnostic) :
    Except Crash (List Log.Entry) :=
  (diagnostics.mapM (diagnosticEntries tree)).map List.flatten

/-! ### Reports -/

def summaryLines (report : Report) : List Text :=
  match report.compiled with
  | none => []
  | some _ =>
      ["Compiled with " ++ Text.ofNat report.warnings.length ++ " warnings and " ++
        Text.ofNat report.errors.length ++ " errors"]

/-- The problems of a report: all errors, and the warnings if they are to be shown. -/
def reportEntries (tree : FileTree) (showWarnings : Bool) (report : Report) :
    Except Crash (List Log.Entry) := do
  let errors ← allEntries tree report.errors
  let warnings ← allEntries tree (if showWarnings then report.warnings else [])
  return errors ++ warnings ++
    (if report.hasErrors then [.error "Exiting because of errors."] else [])

end CommandLine

end SolidityBundler
