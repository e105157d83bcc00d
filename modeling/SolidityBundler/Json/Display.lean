/-
Values inside messages.

A message shows a text as it is and any other value in one line: the words `None`, `True` and
`False`, numbers in figures, and arrays and objects between their brackets with a comma and a
blank behind each item.  Texts inside arrays and objects are quoted.
-/
import SolidityBundler.Json.Printer
import SolidityBundler.Text.Quoted

namespace SolidityBundler

namespace Json

/-- Floating-point numbers as messages show them: the figures of written ones, other words. -/
def shownFloatStyle : Decimal.Style := { floatStyle with infinity := "inf", nan := "nan" }

mutual

def displayNested : Json → Text
  | .null => "None"
  | .bool true => "True"
  | .bool false => "False"
  | .integer value => Text.ofInt value
  | .float value => Decimal.write shownFloatStyle value
  | .string units => units.quoted
  | .array items => '[' :: displayItems items ++ [']']
  | .object members => '\x7b' :: displayMembers members ++ ['\x7d']

def displayItems : List Json → Text
  | [] => []
  | [item] => displayNested item
  | item :: items => displayNested item ++ ", " ++ displayItems items

def displayMembers : List (Utf16 × Json) → Text
  | [] => []
  | [(key, value)] => key.quoted ++ ": " ++ displayNested value
  | (key, value) :: members =>
      key.quoted ++ ": " ++ displayNested value ++ ", " ++ displayMembers members

end

/-- A value as a message shows it. -/
def display : Json → Text
  | .string units => units.toText
  | value => value.displayNested

end Json

end SolidityBundler
