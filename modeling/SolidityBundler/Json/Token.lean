/-
Tokens of JSON text.

White space is a blank, a tab, a line feed or a carriage return.  Numbers follow the strict
grammar: no leading zeros, digits on both sides of a point; and integers have a greatest
length.  Beside the words of the notation, `NaN`, `Infinity` and `-Infinity` are numbers.
Strings hold no bare control characters.
-/
import SolidityBundler.Json.Value
import SolidityBundler.Text.Digit

namespace SolidityBundler

namespace Json

inductive Token
  | openObject
  | closeObject
  | openArray
  | closeArray
  | colon
  | comma
  /-- A value that holds no other values. -/
  | scalar (value : Json)

def isSpace (c : Char) : Bool := c == ' ' || c == '\t' || c == '\n' || c == '\r'

/-! ### Strings -/

def hexValue? (c : Char) : Option Nat :=
  if '0' ≤ c ∧ c ≤ '9' then some (c.toNat - '0'.toNat)
  else if 'a' ≤ c ∧ c ≤ 'f' then some (c.toNat - 'a'.toNat + 10)
  else if 'A' ≤ c ∧ c ≤ 'F' then some (c.toNat - 'A'.toNat + 10)
  else none

def hexNumber? (digits : List Char) : Option Nat :=
  digits.foldl (fun n c => do return (← n) * 16 + (← hexValue? c)) (some 0)

/-- The unit that a letter behind a backslash stands for. -/
def escapeUnit? : Char → Option UInt16
  | '"' => some 0x22
  | '\\' => some 0x5C
  | '/' => some 0x2F
  | 'b' => some 0x08
  | 'f' => some 0x0C
  | 'n' => some 0x0A
  | 'r' => some 0x0D
  | 't' => some 0x09
  | _ => none

/-- The rest of a string behind its opening quote, and the text behind the string. -/
def readString : Text → Option (Utf16 × Text)
  | [] => none
  | '"' :: rest => some ([], rest)
  | '\\' :: 'u' :: a :: b :: c :: d :: rest => do
      let n ← hexNumber? [a, b, c, d]
      let (units, rest) ← readString rest
      return (n.toUInt16 :: units, rest)
  | '\\' :: e :: rest => do
      let unit ← escapeUnit? e
      let (units, rest) ← readString rest
      return (unit :: units, rest)
  | c :: rest =>
      if c.toNat < 0x20 ∨ c = '\\' then none
      else (readString rest).map fun (units, rest) => (Utf16.ofChar c ++ units, rest)

/-! ### Numbers -/

def decimalNumber (digits : List Char) : Nat :=
  digits.foldl (fun n c => n * 10 + (c.toNat - '0'.toNat)) 0

/-- The digits at the start of a text, and the rest. -/
def digits (t : Text) : List Char × Text := t.span Char.isDigit

/-- The digits before the point of a number: a single zero, or digits that begin with none. -/
def wholeDigits? (t : Text) : Option (List Char × Text) :=
  match t with
  | '0' :: rest => some (['0'], rest)
  | _ =>
      match digits t with
      | ([], _) => none
      | found => some found

/-- The digits behind a point, if a point with digits behind it comes next. -/
def fraction (t : Text) : List Char × Text :=
  match t with
  | '.' :: rest =>
      match digits rest with
      | ([], _) => ([], t)
      | found => found
  | _ => ([], t)

/-- The digits of an exponent with its sign, if one comes next. -/
def exponent? (t : Text) : Option (Int × Text) :=
  match t with
  | e :: rest =>
      if e = 'e' ∨ e = 'E' then
        let (negative, rest) :=
          match rest with
          | '-' :: rest => (true, rest)
          | '+' :: rest => (false, rest)
          | _ => (false, rest)
        match digits rest with
        | ([], _) => none
        | (found, rest) =>
            let n : Int := decimalNumber found
            some (if negative then -n else n, rest)
      else none
  | [] => none

/-- The number behind an optional minus sign, and the text behind it. -/
def readNumber (negative : Bool) (t : Text) : Option (Json × Text) := do
  let (whole, rest) ← wholeDigits? t
  let (behind, rest) := fraction rest
  match behind, exponent? rest with
  | [], none =>
      if Text.maxDigits < whole.length then none
      else
        let n : Int := decimalNumber whole
        return (.integer (if negative then -n else n), rest)
  | _, none =>
      return (.float (.ofDecimal negative (decimalNumber (whole ++ behind)) (-behind.length)), rest)
  | _, some (e, rest) =>
      return (.float
        (.ofDecimal negative (decimalNumber (whole ++ behind)) (e - behind.length)), rest)

/-! ### Words -/

def words : List (Text × Json) :=
  [("null", .null), ("true", .bool true), ("false", .bool false), ("NaN", .float .nan),
   ("Infinity", .float (.infinity false)), ("-Infinity", .float (.infinity true))]

def readWord (t : Text) : Option (Json × Text) :=
  (words.find? fun (word, _) => word.isPrefixOf t).map fun (word, value) =>
    (value, t.drop word.length)

/-! ### Token by token -/

/-- A value that is no string, no object and no array. -/
def readPlain (t : Text) : Option (Json × Text) :=
  (readWord t).or <|
    match t with
    | '-' :: rest => readNumber true rest
    | _ => readNumber false t

/-- The mark that a character is on its own. -/
def mark? : Char → Option Token
  | '\x7b' => some .openObject
  | '\x7d' => some .closeObject
  | '[' => some .openArray
  | ']' => some .closeArray
  | ':' => some .colon
  | ',' => some .comma
  | _ => none

def readToken : Text → Option (Token × Text)
  | [] => none
  | c :: rest =>
      match mark? c with
      | some token => some (token, rest)
      | none =>
          if c = '"' then (readString rest).map fun (units, rest) => (.scalar (.string units), rest)
          else (readPlain (c :: rest)).map fun (value, rest) => (.scalar value, rest)

/-- The tokens of a text, at most `fuel` of them. -/
def tokensWithin : (fuel : Nat) → Text → Option (List Token)
  | 0, t => if t.isEmpty then some [] else none
  | fuel + 1, t =>
      match t.dropWhile isSpace with
      | [] => some []
      | t => do
          let (token, rest) ← readToken t
          return token :: (← tokensWithin fuel rest)

/-- The tokens of a text.  Every token takes a character, so the length of the text bounds
their number. -/
def tokens (t : Text) : Option (List Token) := tokensWithin (t.length + 1) t

end Json

end SolidityBundler
