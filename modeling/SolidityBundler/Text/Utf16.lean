/-
Texts as 16-bit units.

A code point above U+FFFF is written as a high and a low surrogate.  A sequence of units
need not come from a text: it may hold a surrogate without its partner, which is shown as
the replacement character when a text is made of it.
-/
import SolidityBundler.Text.Basic

namespace SolidityBundler

/-- A sequence of 16-bit units. -/
abbrev Utf16 := List UInt16

namespace Utf16

def ofChar (c : Char) : Utf16 :=
  let n := c.toNat
  if n < 0x10000 then [n.toUInt16]
  else [(0xD800 + (n - 0x10000) / 0x400).toUInt16, (0xDC00 + (n - 0x10000) % 0x400).toUInt16]

def ofText (t : Text) : Utf16 := t.flatMap ofChar

/-- Whether a unit is a surrogate that opens a pair. -/
def isHigh (u : UInt16) : Bool := 0xD800 ≤ u && u ≤ 0xDBFF

/-- Whether a unit is a surrogate that closes a pair. -/
def isLow (u : UInt16) : Bool := 0xDC00 ≤ u && u ≤ 0xDFFF

def pairChar (high low : UInt16) : Char :=
  Char.ofNat (0x10000 + (high.toNat - 0xD800) * 0x400 + (low.toNat - 0xDC00))

inductive Piece
  | char (c : Char)
  /-- A surrogate without its partner. -/
  | lone (surrogate : UInt16)
  deriving DecidableEq, Repr

/-- The piece that a unit is on its own. -/
def pieceOf (u : UInt16) : Piece :=
  if isHigh u || isLow u then .lone u else .char (Char.ofNat u.toNat)

/-- The pieces of a sequence of units. -/
def pieces : Utf16 → List Piece
  | [] => []
  | [u] => [pieceOf u]
  | u :: v :: rest =>
      if isHigh u && isLow v then .char (pairChar u v) :: pieces rest
      else pieceOf u :: pieces (v :: rest)

/-- The character that a piece is shown as. -/
def Piece.shown : Piece → Char
  | .char c => c
  | .lone _ => '\uFFFD'

def toText (units : Utf16) : Text := units.pieces.map Piece.shown

end Utf16

end SolidityBundler
