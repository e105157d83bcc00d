/-
What the compiler hands back.

The output lists messages under `errors` and contracts, by source and name, under
`contracts`.  A source gives one artifact: the contract named after its file.  A source
without such a contract gives a warning, unless the compiler reported errors anyway.

An output that does not have this shape is refused where the shape is first missed.
-/
import SolidityBundler.Diagnostic
import SolidityBundler.Json.Value
import SolidityBundler.Log
import SolidityBundler.Source.Unit
import SolidityBundler.Table

namespace SolidityBundler

structure CompilerOutput where
  /-- The contracts by artifact name. -/
  artifacts : Table Text Json := .empty
  errors : List Diagnostic := []
  warnings : List Diagnostic := []

/-! ### Names -/

/-- The artifact of a source is named after it, without the ending of source files. -/
def artifactName (source : Text) : Text := (Text.dropEnding? sourceEnding source).getD source

/-- The contract that a source is to hold. -/
def contractName (source : Text) : Text := (TreePath.ofText source).stem

/-! ### Messages -/

/-- The members of an object. -/
def membersOf : Json → Except ShapeFault (List (Utf16 × Json))
  | .object members => .ok members
  | _ => .error .unsupportedAccess

/-- The severity of a message: an error when none is given. -/
def severityOf : Option Json → Severity
  | none => .error
  | some (.string units) =>
      if units = .ofText "error" then .error
      else if units = .ofText "warning" then .warning
      else .other "info"
  | some _ => .other "info"

/-- A message of the compiler as a diagnostic.  The compiler's own rendering is kept, or the
bare message where there is none.  What is said of wording and place is kept as it is. -/
def diagnosticOf (entry : Json) : Except ShapeFault Diagnostic := do
  let members ← membersOf entry
  let given (key : Text) : Json := (Json.member? members key).getD .null
  let location ← if (given "sourceLocation").isEmptyValue then pure [] else
    membersOf (given "sourceLocation")
  let placed (key : Text) : Json := (Json.member? location key).getD .null
  let message := (Json.member? members "message").getD (.string [])
  let rendering := given "formattedMessage"
  return {
    severity := severityOf (Json.member? members "severity")
    message := (Reported.ofText? message).getD (.improper .null)
    filename := Reported.ofText? (placed "file")
    formatted := Reported.ofText? (if rendering.isEmptyValue then message else rendering)
    offset := Reported.ofInteger? (placed "start") }

def listedMessages : Json → Except ShapeFault (List Json)
  | .array items => .ok items
  | .object members => .ok (members.map fun (key, _) => .string key)
  | .string units => .ok (units.map fun unit => .string [unit])
  | _ => .error .notIterable

def diagnosticsOf (members : List (Utf16 × Json)) : Except ShapeFault (List Diagnostic) := do
  (← listedMessages ((Json.member? members "errors").getD (.array []))).mapM diagnosticOf

/-! ### Contracts -/

/-- The contract that an output holds for a source, if it has one of the right name. -/
def contractOf? (contracts : Json) (source : Text) : Except ShapeFault (Option Json) := do
  let ofSource ← membersOf ((Json.member? (← membersOf contracts) source).getD (.object []))
  match Json.member? ofSource (contractName source) with
  | none | some .null => return none
  | some contract => return some contract

def missingContractMessage (source : Text) : Text :=
  "[SOL-0020] no contract named '" ++ contractName source ++ "' in '" ++ source ++
    "'; no artifact written"

def missingContract (source : Text) : Diagnostic where
  severity := .warning
  message := .proper (missingContractMessage source)
  unitName := some source

/-- Adds what an output holds for one source. -/
def collectSource (contracts : Json) (output : CompilerOutput) (source : Text) :
    Except ShapeFault CompilerOutput := do
  match ← contractOf? contracts source with
  | some contract =>
      return { output with artifacts := output.artifacts.insert (artifactName source) contract }
  | none =>
      if output.errors.isEmpty then
        return { output with warnings := output.warnings ++ [missingContract source] }
      else return output

/-- Sorts an output into artifacts, errors and warnings; other messages are dropped. -/
def collectOutput (output : Json) (sources : List Text) : Except ShapeFault CompilerOutput := do
  let members ← membersOf output
  let diagnostics ← diagnosticsOf members
  let contracts := (Json.member? members "contracts").getD (.object [])
  sources.foldlM (collectSource contracts)
    { errors := diagnostics.filter Diagnostic.isError
      warnings := diagnostics.filter Diagnostic.isWarning }

/-- What there is to tell about missing contracts.  Of the warnings collected from an output
only theirs name a unit. -/
def missingContractEntries (output : CompilerOutput) : List Log.Entry :=
  (output.warnings.filterMap Diagnostic.unitName).map fun source =>
    .debug (missingContractMessage source)

end SolidityBundler
