/-
Texts.

Sources, names and messages are lists of code points, so that every scanner of this
library recurses on the data it reads.  A string constant stands for its characters.  A
character is never a surrogate, so every text can be encoded.

`split` and `join` are inverse to each other: `join_split` puts the pieces of a text
back together, and `split_ne_nil` says that there is always at least one piece.
-/
namespace SolidityBundler

/-- A text is its list of code points. -/
abbrev Text := List Char

instance : Coe String Text := ⟨String.toList⟩

namespace Text

/-! ### Pieces between separators -/

/-- Puts a character in front of the first piece. -/
def consFirst (c : Char) : List Text → List Text
  | [] => [[c]]
  | piece :: pieces => (c :: piece) :: pieces

/-- The pieces between the occurrences of `sep`; a text without `sep` is one piece. -/
def split (sep : Char) : Text → List Text
  | [] => [[]]
  | c :: rest => if c = sep then [] :: split sep rest else consFirst c (split sep rest)

/-- The pieces in a row, with `sep` between neighbours. -/
def join (sep : Text) : List Text → Text
  | [] => []
  | [piece] => piece
  | piece :: pieces => piece ++ sep ++ join sep pieces

theorem split_ne_nil (sep : Char) (t : Text) : split sep t ≠ [] := by
  cases t with
  | nil => simp [split]
  | cons c rest =>
      simp only [split]
      split
      · simp
      · cases split sep rest <;> simp [consFirst]

private theorem join_consFirst (sep : Text) (c : Char) {pieces : List Text} (h : pieces ≠ []) :
    join sep (consFirst c pieces) = c :: join sep pieces := by
  cases pieces with
  | nil => exact absurd rfl h
  | cons piece pieces => cases pieces <;> simp [consFirst, join]

theorem join_split (sep : Char) (t : Text) : join [sep] (split sep t) = t := by
  induction t with
  | nil => rfl
  | cons c rest ih =>
      simp only [split]
      split
      · next h =>
          subst h
          cases hs : split c rest with
          | nil => exact absurd hs (split_ne_nil c rest)
          | cons piece pieces => simp [join, ← hs, ih]
      · rw [join_consFirst _ _ (split_ne_nil sep rest), ih]

/-! ### Ends of a text -/

def trimEnd (p : Char → Bool) (t : Text) : Text :=
  (t.reverse.dropWhile p).reverse

def trim (p : Char → Bool) (t : Text) : Text :=
  trimEnd p (t.dropWhile p)

/-- The text without a given ending, when it has that ending. -/
def dropEnding? (ending t : Text) : Option Text :=
  if ending.isSuffixOf t then some (t.take (t.length - ending.length)) else none

/-- Everything before and after the first `sep`. -/
def cut? (sep : Char) : Text → Option (Text × Text)
  | [] => none
  | c :: rest =>
      if c = sep then some ([], rest)
      else (cut? sep rest).map fun (before, after) => (c :: before, after)

/-- Every occurrence of the two-character word `a b` gets a blank between the two. -/
def spaceOut (a b : Char) : Text → Text
  | [] => []
  | [c] => [c]
  | c :: d :: rest =>
      if c = a ∧ d = b then a :: ' ' :: b :: spaceOut a b rest else c :: spaceOut a b (d :: rest)

/-! ### Numbers as text -/

def ofNat (n : Nat) : Text := Nat.toDigits 10 n

/-- Decimal digits of an integer, with a minus sign below zero. -/
def ofInt : Int → Text
  | .ofNat n => ofNat n
  | .negSucc n => '-' :: ofNat (n + 1)

/-- Pads with `fill` on the left up to `width` characters. -/
def padLeft (width : Nat) (fill : Char) (t : Text) : Text :=
  List.replicate (width - t.length) fill ++ t

/-- Lower-case hexadecimal digits, at least `width` of them. -/
def ofHex (width n : Nat) : Text := padLeft width '0' (Nat.toDigits 16 n)

end Text

end SolidityBundler
