/-
Code, comments and literals.

A source is read in four modes: code, line comment, block comment, and the inside of a
string literal.  `mask` blanks out comments and the insides of literals and leaves all
else where it is, so an offset into the masked text is an offset into the source.  The
quotes of a literal stay, which keeps literals recognisable.

`classify` sorts the same characters into code, quotes, and hidden text without writing
anything.
-/
import SolidityBundler.Text.Basic

namespace SolidityBundler

/-- What the next character of a source belongs to. -/
inductive Mode
  | code
  | lineComment
  | blockComment
  /-- Inside a literal that `quote` opened. -/
  | literal (quote : Char)
  deriving DecidableEq, Repr

def isQuote (c : Char) : Bool := c == '"' || c == '\''

/-- The mode behind a character of code that opens no comment. -/
def Mode.afterCode (c : Char) : Mode := if isQuote c then .literal c else .code

/-- What masking puts in place of a character of a comment: line feeds stay. -/
def blanked (c : Char) : Char := if c = '\n' then c else ' '

/-- Masks the rest of a source that is read in a given mode.

A line comment ends before its line feed, a literal at its quote or at a line feed.  A
backslash in a literal takes the next character with it, whatever that is. -/
def maskFrom : Mode → Text → Text
  | _, [] => []
  | .code, '/' :: '/' :: rest => ' ' :: ' ' :: maskFrom .lineComment rest
  | .code, '/' :: '*' :: rest => ' ' :: ' ' :: maskFrom .blockComment rest
  | .code, c :: rest => c :: maskFrom (.afterCode c) rest
  | .lineComment, c :: rest =>
      blanked c :: maskFrom (if c = '\n' then .code else .lineComment) rest
  | .blockComment, '*' :: '/' :: rest => ' ' :: ' ' :: maskFrom .code rest
  | .blockComment, c :: rest => blanked c :: maskFrom .blockComment rest
  | .literal quote, '\\' :: _ :: rest => ' ' :: ' ' :: maskFrom (.literal quote) rest
  | .literal quote, c :: rest =>
      if c = quote ∨ c = '\n' then c :: maskFrom .code rest
      else ' ' :: maskFrom (.literal quote) rest

/-- The source with comments and the insides of literals blanked out. -/
def mask (source : Text) : Text := maskFrom .code source

/-- The part that a character plays in a source. -/
inductive CharClass
  | code
  /-- A quote that opens or closes a literal, or the line feed that breaks one off. -/
  | delimiter
  | comment
  /-- A character between the quotes of a literal. -/
  | quotedText
  deriving DecidableEq, Repr

/-- The parts that the characters of the rest of a source play. -/
def classifyFrom : Mode → Text → List CharClass
  | _, [] => []
  | .code, '/' :: '/' :: rest => .comment :: .comment :: classifyFrom .lineComment rest
  | .code, '/' :: '*' :: rest => .comment :: .comment :: classifyFrom .blockComment rest
  | .code, c :: rest =>
      (if isQuote c then .delimiter else .code) :: classifyFrom (.afterCode c) rest
  | .lineComment, c :: rest =>
      (if c = '\n' then .code else .comment) ::
        classifyFrom (if c = '\n' then .code else .lineComment) rest
  | .blockComment, '*' :: '/' :: rest => .comment :: .comment :: classifyFrom .code rest
  | .blockComment, _ :: rest => .comment :: classifyFrom .blockComment rest
  | .literal quote, '\\' :: _ :: rest =>
      .quotedText :: .quotedText :: classifyFrom (.literal quote) rest
  | .literal quote, c :: rest =>
      if c = quote ∨ c = '\n' then .delimiter :: classifyFrom .code rest
      else .quotedText :: classifyFrom (.literal quote) rest

def classify (source : Text) : List CharClass := classifyFrom .code source

theorem length_maskFrom (mode : Mode) (source : Text) :
    (maskFrom mode source).length = source.length := by
  fun_induction maskFrom mode source <;> simp_all

theorem length_classifyFrom (mode : Mode) (source : Text) :
    (classifyFrom mode source).length = source.length := by
  fun_induction classifyFrom mode source <;> simp_all

end SolidityBundler
