/-
Diagnostics.

A diagnostic names a problem and, as far as it is known, the unit, the file and the place.
One that comes from the compiler carries the compiler's own rendering and an offset in
bytes; that rendering is kept and followed by the unit and line it was traced back to.  What
the compiler says of its messages is kept as it was reported.
-/
import SolidityBundler.Path.Slash
import SolidityBundler.Reported
import SolidityBundler.Text.Blank

namespace SolidityBundler

inductive Severity
  | error
  | warning
  /-- Anything else, under its own word. -/
  | other (label : Text)
  deriving DecidableEq, Repr

def Severity.label : Severity → Text
  | .error => "error"
  | .warning => "warning"
  | .other label => label

structure Diagnostic where
  severity : Severity
  message : Reported Text
  unitName : Option Text := none
  filename : Option (Reported Text) := none
  line : Option Int := none
  column : Option Int := none
  /-- The compiler's own rendering. -/
  formatted : Option (Reported Text) := none
  /-- Offset in bytes into the compiled source. -/
  offset : Option (Reported Int) := none
  deriving Repr

namespace Diagnostic

def isError (d : Diagnostic) : Bool := d.severity == .error

def isWarning (d : Diagnostic) : Bool := d.severity == .warning

/-- Line and column, each behind a colon; a column counts only with a line. -/
def placeText (d : Diagnostic) : Text :=
  match d.line, d.column with
  | none, _ => []
  | some line, none => ":" ++ Text.ofInt line
  | some line, some column => ":" ++ Text.ofInt line ++ ":" ++ Text.ofInt column

/-- File, place and unit, as far as they are known.  A file name is taken from the directory
`current`. -/
def locationText (current : Text) (d : Diagnostic) : Text :=
  let file : Text := d.filename.elim [] fun name => SlashPath.absolute current name.shown
  let unit : Text := d.unitName.elim [] fun unit => ("(" ++ unit ++ ")" : Text)
  file ++ d.placeText ++ unit

/-- The line that says which unit and line a compiler message was traced back to. -/
def traceText (d : Diagnostic) : Text :=
  match d.unitName, d.line with
  | some unit, some line => "\n  --> in " ++ unit ++ ":" ++ Text.ofInt line
  | _, _ => []

def headline (current : Text) (d : Diagnostic) : Text :=
  let location := d.locationText current
  let opening : Text := if location.isEmpty then [] else location ++ ": "
  opening ++ d.severity.label ++ ": " ++ d.message.shown

/-- The diagnostic in words: the compiler's rendering, which has to be a text, or one line. -/
def render (current : Text) (d : Diagnostic) : Except ShapeFault Text :=
  match d.formatted with
  | some (.proper formatted) => .ok (Text.trimBlankEnd formatted ++ d.traceText)
  | some (.improper _) => .error .notText
  | none => .ok (d.headline current)

end Diagnostic

end SolidityBundler
