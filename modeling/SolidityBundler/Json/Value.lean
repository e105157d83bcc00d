/-
JSON values.

Members of an object keep the order in which they were written.  Strings are sequences of
16-bit units, as the notation has escapes for single units; numbers are integers of any size
or floating-point numbers.
-/
import SolidityBundler.Decimal.Binary64
import SolidityBundler.Text.Utf16

namespace SolidityBundler

inductive Json
  | null
  | bool (value : Bool)
  | integer (value : Int)
  | float (value : Binary64)
  | string (units : Utf16)
  | array (items : List Json)
  | object (members : List (Utf16 × Json))
  deriving Repr

namespace Json

def ofText (t : Text) : Json := .string (.ofText t)

def ofMembers (members : List (Text × Json)) : Json :=
  .object (members.map fun (key, value) => (.ofText key, value))

def member? (members : List (Utf16 × Json)) (key : Text) : Option Json :=
  (members.find? fun (k, _) => k == Utf16.ofText key).map Prod.snd

/-- The members with a value under a key: a key that is there keeps its place. -/
def putMember (members : List (Utf16 × Json)) (key : Utf16) (value : Json) :
    List (Utf16 × Json) :=
  match members with
  | [] => [(key, value)]
  | (k, v) :: rest =>
      if k = key then (key, value) :: rest else (k, v) :: putMember rest key value

/-- Whether a value counts as nothing: null, false, zero, or empty. -/
def isEmptyValue : Json → Bool
  | .null => true
  | .bool value => !value
  | .integer value => value == 0
  | .float (.finite _ significand _) => significand == 0
  | .float _ => false
  | .string units => units.isEmpty
  | .array items => items.isEmpty
  | .object members => members.isEmpty

end Json

end SolidityBundler
