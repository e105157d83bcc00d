/-
Slash-separated paths as text.

Logical names and import specifiers are texts whose segments are separated by `/`.  Empty
segments, `.` and `..` are kept until a path is normalised.  Normalising walks through the
segments once: an ordinary segment goes down, `..` goes back up, and where there is nothing
to go back to it stays, unless the path starts at the root.
-/
import SolidityBundler.Text.Basic

namespace SolidityBundler

namespace SlashPath

/-- The segment that stays in place. -/
def here : Text := ['.']

/-- The segment that goes up. -/
def up : Text := ['.', '.']

/-- The segments of a path; there is always at least one. -/
def segments (path : Text) : List Text := path.split '/'

def ofSegments (segs : List Text) : Text := Text.join ['/'] segs

def depth (path : Text) : Nat := (segments path).length

/-- The ends of a list that are neither the whole of it nor empty, longest first. -/
def properTails {α : Type} : List α → List (List α)
  | [] => []
  | _ :: [] => []
  | _ :: y :: rest => (y :: rest) :: properTails (y :: rest)

/-- The proper suffixes of a path, longest first. -/
def suffixes (path : Text) : List Text := (properTails (segments path)).map ofSegments

def isAllSlashes (path : Text) : Bool := path.all (· == '/')

/-- Everything up to the last slash, without slashes at its end unless it holds nothing else. -/
def directory (path : Text) : Text :=
  let head := (path.reverse.dropWhile (· != '/')).reverse
  if isAllSlashes head then head else Text.trimEnd (· == '/') head

/-- One path behind another; a path that starts at the root stands for itself. -/
def join (base path : Text) : Text :=
  if path.head? == some '/' then path
  else if base.isEmpty || base.getLast? == some '/' then base ++ path
  else base ++ '/' :: path

/-! ### Normal form -/

/-- The slashes that a normal path keeps in front: two stay two, any other number is one. -/
def rootSlashes (path : Text) : Nat :=
  match (path.takeWhile (· == '/')).length with
  | 0 => 0
  | 2 => 2
  | _ => 1

/-- One step of normalising.  `trail` holds the segments kept so far, the last one first. -/
def visit (rooted : Bool) (trail : List Text) (segment : Text) : List Text :=
  if segment.isEmpty || segment == here then trail
  else if segment == up then
    match trail with
    | [] => if rooted then [] else [up]
    | last :: below => if last == up then up :: trail else below
  else segment :: trail

def normalSegments (path : Text) : List Text :=
  ((segments path).foldl (visit (0 < rootSlashes path)) []).reverse

/-- The path without empty and `.` segments, and with every `..` taken as far as it goes.
A path that comes to nothing is `.`. -/
def normalize (path : Text) : Text :=
  let normal := List.replicate (rootSlashes path) '/' ++ ofSegments (normalSegments path)
  if normal.isEmpty then here else normal

def absolute (current path : Text) : Text := normalize (join current path)

/-! ### Relative specifiers -/

/-- Whether a specifier starts with `./` or `../`. -/
def isRelative (specifier : Text) : Bool :=
  ['.', '/'].isPrefixOf specifier || ['.', '.', '/'].isPrefixOf specifier

/-- Whether a segment names nothing of its own. -/
def isRelativeSegment (segment : Text) : Bool :=
  segment == here || segment == up || segment.isEmpty

/-- The specifier without its relative segments, wherever they stand. -/
def dropRelative (specifier : Text) : Text :=
  ofSegments ((segments specifier).filter (!isRelativeSegment ·))

end SlashPath

end SolidityBundler
