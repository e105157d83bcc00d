/-
Lines and positions.

Two notions of line meet in this library.  Positions in sources count line feeds only;
an excerpt of a file breaks its text at every line boundary that Unicode knows.  Reading
a file turns the three usual line endings into line feeds before either notion applies.
-/
import SolidityBundler.Text.Basic

namespace SolidityBundler

namespace Text

/-! ### Line feeds -/

def lineFeeds (t : Text) : Nat := t.count '\n'

@[simp] theorem lineFeeds_append (s t : Text) : lineFeeds (s ++ t) = lineFeeds s + lineFeeds t :=
  List.count_append

/-- The lines of a text, cut at line feeds. -/
def lines (t : Text) : List Text := split '\n' t

def endsLine (t : Text) : Bool := t.getLast? == some '\n'

/-- The text with a line feed at its end. -/
def closeLine (t : Text) : Text := if endsLine t then t else t ++ ['\n']

theorem endsLine_closeLine (t : Text) : endsLine (closeLine t) = true := by
  unfold closeLine
  split
  · assumption
  · simp [endsLine]

structure Position where
  line : Nat
  column : Nat
  deriving DecidableEq, Repr

/-- The first character stands on line 1 at column 1. -/
def Position.first : Position := { line := 1, column := 1 }

def Position.after (p : Position) (c : Char) : Position :=
  if c = '\n' then { line := p.line + 1, column := 1 } else { p with column := p.column + 1 }

/-- The place reached from `p` behind so many characters. -/
def positionFrom (p : Position) : (count : Nat) → Text → Position
  | 0, _ => p
  | _, [] => p
  | count + 1, c :: rest => positionFrom (p.after c) count rest

def positionAt (t : Text) (offset : Nat) : Position := positionFrom .first offset t

private theorem line_positionFrom (p : Position) (count : Nat) (t : Text) :
    (positionFrom p count t).line = p.line + lineFeeds (t.take count) := by
  fun_induction positionFrom p count t with
  | case1 => simp [lineFeeds]
  | case2 => simp [lineFeeds]
  | case3 p count c rest ih =>
      rw [ih, Position.after]
      by_cases h : c = '\n'
      · subst h
        simp [lineFeeds]
        omega
      · simp [lineFeeds, h]

/-- A character stands one line below the line feeds before it. -/
theorem line_positionAt (t : Text) (offset : Nat) :
    (positionAt t offset).line = lineFeeds (t.take offset) + 1 := by
  rw [positionAt, line_positionFrom, Nat.add_comm]
  rfl

/-! ### Line endings of files -/

/-- Carriage returns, with or without a line feed behind them, become line feeds. -/
def normalizeNewlines : Text → Text
  | [] => []
  | '\r' :: '\n' :: rest => '\n' :: normalizeNewlines rest
  | c :: rest => (if c = '\r' then '\n' else c) :: normalizeNewlines rest

theorem carriageReturn_notMem_normalizeNewlines (t : Text) : '\r' ∉ normalizeNewlines t := by
  fun_induction normalizeNewlines t with
  | case1 => simp
  | case2 rest ih => simp [ih]
  | case3 c rest _ ih =>
      simp only [List.mem_cons, not_or]
      refine ⟨?_, ih⟩
      split
      · decide
      · next h => exact fun heq => h heq.symm

theorem normalizeNewlines_eq_self {t : Text} (h : '\r' ∉ t) : normalizeNewlines t = t := by
  fun_induction normalizeNewlines t with
  | case1 => rfl
  | case2 rest ih => simp at h
  | case3 c rest _ ih =>
      simp only [List.mem_cons, not_or] at h
      rw [ih h.2, if_neg (Ne.symm h.1)]

/-! ### All line boundaries -/

/-- The characters that end a line: line feed, line tabulation, form feed, carriage return,
the three larger information separators, next line, and the two Unicode separators. -/
def isLineBoundary (c : Char) : Bool :=
  ['\n', '\x0b', '\x0c', '\r', '\x1c', '\x1d', '\x1e', '\u0085', '\u2028', '\u2029'].contains c

/-- The lines between boundaries; a boundary at the end of the text opens no further line. -/
def boundaryLines : Text → List Text
  | [] => []
  | '\r' :: '\n' :: rest => [] :: boundaryLines rest
  | c :: rest =>
      if isLineBoundary c then [] :: boundaryLines rest else consFirst c (boundaryLines rest)

end Text

end SolidityBundler
