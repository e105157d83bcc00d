/-
The text of a bundle.

The units of a bundle stand one after the other, each behind a header line and an empty
line, with an empty line between neighbours.  Import statements that were inlined are turned
into comments over the same lines, so the lines of a unit keep their numbers, and a bundle
remembers where each unit's lines begin and how many there are.  `originOf` maps a line of
the bundle back by searching for the last unit that begins at or before it.
-/
import SolidityBundler.Source.Import

namespace SolidityBundler

/-! ### Inlined statements -/

/-- A statement as a comment; an end of comment inside it is taken apart. -/
def commentedOut (statement : Text) : Text :=
  "/* " ++ Text.spaceOut '*' '/' statement ++ " */"

/-- The text from `cursor` on with the statements of `edges` as comments. -/
def commentOutFrom (text : Text) : (cursor : Nat) → List ImportEdge → Text
  | cursor, [] => text.drop cursor
  | cursor, edge :: edges =>
      slice text cursor edge.start ++ commentedOut (slice text edge.start edge.stop) ++
        commentOutFrom text edge.stop edges

def commentOut (text : Text) (edges : List ImportEdge) : Text := commentOutFrom text 0 edges

/-! ### Placing the units -/

/-- Where the lines of a unit stand in a bundle. -/
structure Span where
  unit : Text
  /-- The first of its lines, counted from one. -/
  first : Int
  count : Nat
  deriving DecidableEq, Repr

/-- A unit with the text it is inlined with. -/
structure Section where
  unit : Text
  body : Text
  deriving DecidableEq, Repr

def headerLine (unit : Text) : Text := "// File: " ++ unit

def Section.text (s : Section) : Text := headerLine s.unit ++ "\n\n" ++ s.body

/-- The spans of sections that begin at `line`: a header and an empty line stand before each
body, and an empty line behind it. -/
def spansFrom : (line : Int) → List Section → List Span
  | _, [] => []
  | line, s :: rest =>
      { unit := s.unit, first := line + 2, count := Text.lineFeeds s.body } ::
        spansFrom (line + 2 + Text.lineFeeds s.body + 1) rest

structure Bundle where
  entry : Text
  content : Text
  /-- Where each unit stands, in the order of the text. -/
  spans : List Span
  deriving DecidableEq, Repr

def Bundle.ofSections (entry : Text) (sections : List Section) : Bundle where
  entry
  content := Text.join ['\n'] (sections.map Section.text)
  spans := spansFrom 1 sections

/-- The names of the inlined units, in the order of the text. -/
def Bundle.units (bundle : Bundle) : List Text := bundle.spans.map Span.unit

/-! ### From a line back to its unit -/

/-- Halves the range from `low` to `high` until it is empty: the number of spans that begin
at or before `line`, provided that the spans are in order. -/
def countBeginningBy (spans : Array Span) (line : Int) (low high : Nat) : Nat :=
  if low < high then
    let middle := (low + high) / 2
    match spans[middle]? with
    | none => low
    | some span =>
        if line < span.first then countBeginningBy spans line low middle
        else countBeginningBy spans line (middle + 1) high
  else low
termination_by high - low

/-- The unit that a line belongs to and the number of the line in it.  Headers and the lines
between units belong to none. -/
def originOf (spans : List Span) (line : Int) : Option (Text × Int) :=
  match countBeginningBy spans.toArray line 0 spans.length with
  | 0 => none
  | n + 1 =>
      match spans[n]? with
      | none => none
      | some span =>
          if line < span.first + span.count then
            some (span.unit, line - span.first + 1)
          else none

def Bundle.originOf (bundle : Bundle) (line : Int) : Option (Text × Int) :=
  SolidityBundler.originOf bundle.spans line

end SolidityBundler
