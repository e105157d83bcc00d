/-
Tracing compiler messages back to units.

The compiler sees bundles and gives places as offsets in bytes.  The line of an offset is
one more than the line feeds among the bytes before it; the bundle says which unit and line
that line comes from.  A message whose offset is in no unit is left as it is.
-/
import SolidityBundler.Bundle.Bundling
import SolidityBundler.Text.Utf8

namespace SolidityBundler

def lineFeedByte : UInt8 := 10

/-- The line, counted from one, that holds the byte behind so many others. -/
def lineAtByte (content : Text) (count : Nat) : Nat :=
  ((Utf8.encode content).take count).count lineFeedByte + 1

/-- The diagnostic with the unit and line that a byte of a bundle comes from, if it comes from
one. -/
def Diagnostic.tracedTo (d : Diagnostic) (bundle : Bundle) (count : Nat) : Diagnostic :=
  match bundle.originOf (lineAtByte bundle.content count) with
  | some (unit, line) => { d with unitName := some unit, line := some line }
  | none => d

/-- The diagnostic with the unit and line that its offset belongs to, as far as they are known.
File name and offset must be of kinds that can be looked up and counted. -/
def Diagnostic.attribute (bundles : Table Text Bundle) (d : Diagnostic) :
    Except ShapeFault Diagnostic :=
  match d.offset, d.filename with
  | some offset, some filename => do
      match (← filename.name?).bind bundles.get? with
      | some bundle => return d.tracedTo bundle (← offset.byteCount)
      | none => return d
  | _, _ => .ok d

end SolidityBundler
