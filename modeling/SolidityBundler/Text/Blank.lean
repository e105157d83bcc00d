/-
White space.

The blank characters are those of the Unicode property White_Space together with the
four information separators U+001C to U+001F.
-/
import SolidityBundler.Text.Basic
import SolidityBundler.Text.Ranges

namespace SolidityBundler

namespace Text

def blankRanges : List (Nat × Nat) :=
  [(0x9, 0xD), (0x1C, 0x20), (0x85, 0x85), (0xA0, 0xA0), (0x1680, 0x1680), (0x2000, 0x200A),
   (0x2028, 0x2029), (0x202F, 0x202F), (0x205F, 0x205F), (0x3000, 0x3000)]

/-- Whether a character is white space. -/
def isBlank (c : Char) : Bool := inRanges blankRanges c

def trimBlankEnd (t : Text) : Text := trimEnd isBlank t

def trimBlanks (t : Text) : Text := trim isBlank t

end Text

end SolidityBundler
