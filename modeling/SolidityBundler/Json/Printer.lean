/-
Writing JSON text.

Every item and member stands on a line of its own, indented by two blanks for each level;
empty arrays and objects take no lines.  Everything outside printable ASCII is escaped, unit
by unit.
-/
import SolidityBundler.Decimal.Shortest
import SolidityBundler.Json.Value

namespace SolidityBundler

namespace Json

/-- Floating-point numbers are written out between 0.0001 and 10^16, and with an exponent of
two digits or more elsewhere. -/
def floatStyle : Decimal.Style where
  leadingZeros := 4
  positionalDigits := 16
  exponentDigits := 2
  infinity := "Infinity"
  nan := "NaN"

def writeUnit (u : UInt16) : Text :=
  if u = 0x22 then ['\\', '"']
  else if u = 0x5C then ['\\', '\\']
  else if u = 0x08 then ['\\', 'b']
  else if u = 0x0C then ['\\', 'f']
  else if u = 0x0A then ['\\', 'n']
  else if u = 0x0D then ['\\', 'r']
  else if u = 0x09 then ['\\', 't']
  else if 0x20 ≤ u ∧ u ≤ 0x7E then [Char.ofNat u.toNat]
  else ['\\', 'u'] ++ Text.ofHex 4 u.toNat

def writeString (units : Utf16) : Text := '"' :: units.flatMap writeUnit ++ ['"']

/-- The start of a line at a level. -/
def newLine (level : Nat) : Text := '\n' :: List.replicate (2 * level) ' '

mutual

/-- A value inside `level` arrays and objects. -/
def writeAt (level : Nat) : Json → Text
  | .null => "null"
  | .bool true => "true"
  | .bool false => "false"
  | .integer value => Text.ofInt value
  | .float value => Decimal.write floatStyle value
  | .string units => writeString units
  | .array [] => ['[', ']']
  | .array (item :: items) =>
      '[' :: newLine (level + 1) ++ writeAt (level + 1) item ++ writeItems (level + 1) items ++
        newLine level ++ [']']
  | .object [] => ['\x7b', '\x7d']
  | .object ((key, value) :: members) =>
      '\x7b' :: newLine (level + 1) ++ writeString key ++ [':', ' '] ++
        writeAt (level + 1) value ++ writeMembers (level + 1) members ++ newLine level ++ ['\x7d']

/-- The items behind the first one. -/
def writeItems (level : Nat) : List Json → Text
  | [] => []
  | item :: items => ',' :: newLine level ++ writeAt level item ++ writeItems level items

/-- The members behind the first one. -/
def writeMembers (level : Nat) : List (Utf16 × Json) → Text
  | [] => []
  | (key, value) :: members =>
      ',' :: newLine level ++ writeString key ++ [':', ' '] ++ writeAt level value ++
        writeMembers level members

end

def write (value : Json) : Text := writeAt 0 value

end Json

end SolidityBundler
