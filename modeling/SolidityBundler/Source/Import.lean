/-
Import statements.

A statement begins at the word `import` and ends at the next semicolon; both are looked
for in the masked source, so neither a comment nor a literal can hold one.  Its specifier
is the first text between two equal quotes in the statement as it is written.  A statement
without such a text imports nothing.
-/
import SolidityBundler.Source.Mask
import SolidityBundler.Text.Lines
import SolidityBundler.Text.WordChar

namespace SolidityBundler

/-- A declared dependency of one source on another. -/
structure ImportEdge where
  importer : Text
  specifier : Text
  /-- Offset of the first character of the statement. -/
  start : Nat
  /-- Offset behind its semicolon. -/
  stop : Nat
  position : Text.Position
  deriving DecidableEq, Repr

/-! ### Where statements stand -/

def importWord : Text := ['i', 'm', 'p', 'o', 'r', 't']

/-- Whether a text begins with a word that ends where `word` ends. -/
def beginsWithWord (word text : Text) : Bool :=
  word.isPrefixOf text && !((text.drop word.length).head?.any Text.isWordChar)

/-- The extents of the statements in the rest of a masked source.  `began` is where the
statement under way began, if one is; `inWord` says whether a word goes on; `offset`
counts the characters read. -/
def extentsFrom : (began : Option Nat) → (inWord : Bool) → (offset : Nat) → Text →
    List (Nat × Nat)
  | _, _, _, [] => []
  | some start, _, offset, c :: rest =>
      if c = ';' then (start, offset + 1) :: extentsFrom none false (offset + 1) rest
      else extentsFrom (some start) false (offset + 1) rest
  | none, inWord, offset, c :: rest =>
      if !inWord && beginsWithWord importWord (c :: rest) then
        extentsFrom (some offset) false (offset + 1) rest
      else
        extentsFrom none (Text.isWordChar c) (offset + 1) rest

/-- The extents of the statements of a masked source, in order: the offset of the first
character and the offset behind the semicolon. -/
def extents (masked : Text) : List (Nat × Nat) := extentsFrom none false 0 masked

/-! ### What a statement imports -/

/-- Whether a character can stand between the quotes of a specifier. -/
def isSpecifierChar (c : Char) : Bool := !isQuote c && c != '\n'

/-- The first text that stands between two equal quotes, with neither kind of quote and no
line feed in between. -/
def firstQuoted? : Text → Option Text
  | [] => none
  | c :: rest =>
      if isQuote c && (rest.dropWhile isSpecifierChar).head? == some c then
        some (rest.takeWhile isSpecifierChar)
      else
        firstQuoted? rest

/-- The part of a text from one offset up to another. -/
def slice (text : Text) (start stop : Nat) : Text := (text.drop start).take (stop - start)

/-- The edge of the statement with a given extent. -/
def edgeAt? (importer source : Text) (extent : Nat × Nat) : Option ImportEdge :=
  (firstQuoted? (slice source extent.1 extent.2)).map fun specifier =>
    { importer, specifier, start := extent.1, stop := extent.2
      position := Text.positionAt source extent.1 }

/-- The import statements of a source, in the order of the text. -/
def importsOf (name source : Text) : List ImportEdge :=
  (extents (mask source)).filterMap (edgeAt? name source)

end SolidityBundler
