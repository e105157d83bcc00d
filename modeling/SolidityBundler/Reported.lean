/-
Values as another program reports them.

The messages of the compiler come as JSON, and nothing holds their members to the types that
they should have.  A reported value is of its type, or it is whatever stands in its place.  It
is kept and shown as it is; only an operation that has no use for it fails.
-/
import SolidityBundler.Json.Display

namespace SolidityBundler

/-- A value that should be of one type. -/
inductive Reported (α : Type)
  | proper (value : α)
  /-- It is of another one. -/
  | improper (value : Json)
  deriving Repr

/-- How reported values make an operation fail. -/
inductive ShapeFault
  /-- A member was looked for in a value that has none. -/
  | unsupportedAccess
  /-- Items were looked for in a value that holds none. -/
  | notIterable
  /-- What was to be shown as a text is none. -/
  | notText
  /-- A value was taken for a name or an offset that is of no kind to be one. -/
  | wrongKind
  deriving DecidableEq, Repr

namespace Reported

/-- A text, or what stands in place of one; null stands for no value. -/
def ofText? : Json → Option (Reported Text)
  | .null => none
  | .string units => some (.proper units.toText)
  | value => some (.improper value)

/-- An integer, or what stands in place of one; null stands for no value. -/
def ofInteger? : Json → Option (Reported Int)
  | .null => none
  | .integer value => some (.proper value)
  | value => some (.improper value)

/-- The value as a message shows it. -/
def shown : Reported Text → Text
  | .proper value => value
  | .improper value => value.display

/-- The name that a value is, if it is one.  Arrays and objects cannot even be compared with
names. -/
def name? : Reported Text → Except ShapeFault (Option Text)
  | .proper value => .ok (some value)
  | .improper (.array _) | .improper (.object _) => .error .wrongKind
  | .improper _ => .ok none

/-- The number of bytes before an offset, none for a negative one.  Truth values count as one
and zero, and of the other numbers those that are not above zero as zero. -/
def byteCount : Reported Int → Except ShapeFault Nat
  | .proper value => .ok value.toNat
  | .improper (.bool value) => .ok value.toNat
  | .improper (.float value) => if value.isPositive then .error .wrongKind else .ok 0
  | .improper _ => .error .wrongKind

end Reported

end SolidityBundler
