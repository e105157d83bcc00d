/-
Files as bytes and as text.

Decoding reads one byte after the other and keeps what it knows about a sequence that has
begun: how many bytes are owed, and which values the next one may take.  It stops at the
first fault and says where the fault lies and which bytes make it up.  Source files may
begin with a byte order mark, which is no part of their text.
-/
import SolidityBundler.Text.Lines

namespace SolidityBundler

/-- The content of a file. -/
abbrev Bytes := List UInt8

namespace Utf8

/-- The bytes of a text.  Only a lone surrogate could not be encoded, and a text has none. -/
def encode (t : Text) : Bytes := t.flatMap String.utf8EncodeChar

/-! ### Faults -/

/-- Why bytes are no text. -/
inductive Reason
  /-- No sequence begins with the byte. -/
  | invalidStart
  /-- The input ends inside a sequence. -/
  | unexpectedEnd
  /-- The sequence is broken off by a byte that cannot continue it. -/
  | invalidContinuation
  deriving DecidableEq, Repr

/-- The first bytes of an input that are no text. -/
structure Fault where
  /-- Index of the first byte of the run. -/
  position : Nat
  /-- The offending byte that stands there. -/
  first : UInt8
  /-- How many bytes follow it in the run. -/
  more : Nat
  reason : Reason
  deriving DecidableEq, Repr

def Reason.message : Reason → Text
  | .invalidStart => "invalid start byte"
  | .unexpectedEnd => "unexpected end of data"
  | .invalidContinuation => "invalid continuation byte"

/-- The fault in words: a single byte is named by its value, a run by its positions. -/
def Fault.message (fault : Fault) : Text :=
  "'utf-8' codec can't decode " ++
  (if fault.more = 0 then
    "byte 0x" ++ Text.ofHex 2 fault.first.toNat ++ " in position " ++ Text.ofNat fault.position
  else
    "bytes in position " ++ Text.ofNat fault.position ++ "-" ++
      Text.ofNat (fault.position + fault.more)) ++
  ": " ++ fault.reason.message

/-! ### Decoding -/

/-- A sequence that has begun: its first byte, how many bytes it has beyond that one, its
bits so far, how many bytes are owed, and the bounds on the next of them. -/
structure Sequence where
  first : UInt8
  more : Nat
  bits : Nat
  owed : Nat
  low : UInt8
  high : UInt8
  deriving DecidableEq, Repr

/-- The sequence that a byte above 0x7F begins.  The bounds on the second byte leave out
overlong forms, surrogates, and numbers above the last code point. -/
def sequence? (b : UInt8) : Option Sequence :=
  if b < 0xC2 then none
  else if b < 0xE0 then some ⟨b, 0, b.toNat - 0xC0, 1, 0x80, 0xBF⟩
  else if b < 0xF0 then
    some ⟨b, 0, b.toNat - 0xE0, 2, if b = 0xE0 then 0xA0 else 0x80, if b = 0xED then 0x9F else 0xBF⟩
  else if b < 0xF5 then
    some ⟨b, 0, b.toNat - 0xF0, 3, if b = 0xF0 then 0x90 else 0x80, if b = 0xF4 then 0x8F else 0xBF⟩
  else none

/-- The sequence with one more byte. -/
def Sequence.push (o : Sequence) (b : UInt8) : Sequence :=
  { o with
    more := o.more + 1
    bits := o.bits * 64 + (b.toNat - 0x80)
    owed := o.owed - 1
    low := 0x80
    high := 0xBF }

/-- The fault that a sequence begun before `position` ends in. -/
def Sequence.fault (o : Sequence) (position : Nat) (reason : Reason) : Fault :=
  { position := position - (o.more + 1), first := o.first, more := o.more, reason }

/-- Decodes from `position` on, with a sequence under way or none. -/
def decodeFrom : Option Sequence → Nat → Bytes → Except Fault Text
  | none, _, [] => .ok []
  | some o, position, [] => .error (o.fault position .unexpectedEnd)
  | none, position, b :: rest =>
      if b < 0x80 then
        (decodeFrom none (position + 1) rest).map (Char.ofNat b.toNat :: ·)
      else
        match sequence? b with
        | none => .error ⟨position, b, 0, .invalidStart⟩
        | some o => decodeFrom (some o) (position + 1) rest
  | some o, position, b :: rest =>
      if o.low ≤ b ∧ b ≤ o.high then
        if o.owed ≤ 1 then
          (decodeFrom none (position + 1) rest).map (Char.ofNat (o.push b).bits :: ·)
        else
          decodeFrom (some (o.push b)) (position + 1) rest
      else
        .error (o.fault position .invalidContinuation)

/-- The text of a sequence of bytes. -/
def decode (bytes : Bytes) : Except Fault Text := decodeFrom none 0 bytes

/-! ### Source files -/

def byteOrderMark : Bytes := [0xEF, 0xBB, 0xBF]

/-- What follows the byte order mark at the start of a file; a file that holds only the
beginning of a mark is empty. -/
def dropByteOrderMark (bytes : Bytes) : Bytes :=
  if byteOrderMark.isPrefixOf bytes then bytes.drop byteOrderMark.length
  else if bytes.isPrefixOf byteOrderMark then []
  else bytes

/-- The text of a source file: without its mark, decoded, with line feeds for line ends. -/
def readSource (bytes : Bytes) : Except Fault Text :=
  (decode (dropByteOrderMark bytes)).map Text.normalizeNewlines

end Utf8

end SolidityBundler
