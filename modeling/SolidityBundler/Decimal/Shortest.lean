/-
The shortest decimal of a floating-point number.

A decimal reads back as a number when it lies in the interval of reals that round to it; the
ends belong to the interval when the significand is even.  For one digit, then two, and so
on, the number's two neighbours on the grid of that many digits are tried; the first grid
with a neighbour in the interval gives the result, and of two neighbours the nearer one is
taken, or the even one when they are equally near.
-/
import SolidityBundler.Decimal.Binary64
import SolidityBundler.Text.Basic

namespace SolidityBundler

/-- A decimal: `digits` times ten to the power `scale`. -/
structure Decimal where
  digits : Nat
  scale : Int
  deriving DecidableEq, Repr

namespace Decimal

/-- A positive number with the ends of its rounding interval, as numerators over one common
denominator. -/
structure Interval where
  low : Nat
  value : Nat
  high : Nat
  den : Nat
  /-- Whether the ends round to the number. -/
  closed : Bool

/-- The interval of reals that round to `significand` times two to the power `exponent`.  Below
a power of two the neighbours are half as far apart. -/
def roundingInterval (significand : Nat) (exponent : Int) : Interval :=
  let below := if significand = Nat.pow 2 52 ∧ Binary64.leastExponent < exponent then 1 else 2
  let factor := Nat.pow 2 (exponent - 2).toNat
  { low := (4 * significand - below) * factor
    value := 4 * significand * factor
    high := (4 * significand + 2) * factor
    den := Nat.pow 2 (2 - exponent).toNat
    closed := significand % 2 == 0 }

def Interval.holds (i : Interval) (point : Nat) : Bool :=
  if i.closed then i.low ≤ point && point ≤ i.high else i.low < point && point < i.high

/-- The interval with everything multiplied by `factor` and then measured in steps of `step`:
numerators over the old denominator stay comparable with multiples of `step * den`. -/
def Interval.scaled (i : Interval) (factor : Nat) : Interval :=
  { i with low := i.low * factor, value := i.value * factor, high := i.high * factor }

/-- The neighbour on the grid of multiples of ten to the power `scale` that reads back, if one
does. -/
def onGrid? (i : Interval) (scale : Int) : Option Decimal :=
  let i := i.scaled (Nat.pow 10 (-scale).toNat)
  let step := Nat.pow 10 scale.toNat * i.den
  let below := i.value / step
  let above := below + 1
  let fromBelow := i.value - below * step
  let toAbove := above * step - i.value
  match i.holds (below * step), i.holds (above * step) with
  | true, false => some { digits := below, scale }
  | false, true => some { digits := above, scale }
  | true, true =>
      if fromBelow < toAbove ∨ (fromBelow = toAbove ∧ below % 2 = 0) then
        some { digits := below, scale }
      else some { digits := above, scale }
  | false, false => none

/-- The first of the grids with `count` digits and more, up to `more` of them, that has a
decimal reading back. -/
def firstOnGrid? (i : Interval) (size : Int) : (more count : Nat) → Option Decimal
  | 0, _ => none
  | more + 1, count =>
      (onGrid? i (size - count)).or (firstOnGrid? i size more (count + 1))

/-- Powers of ten taken out of the digits, as long as there are any among `fuel` digits. -/
def stripZeros : (fuel : Nat) → Decimal → Decimal
  | 0, d => d
  | fuel + 1, d =>
      if d.digits % 10 = 0 ∧ d.digits ≠ 0 then
        stripZeros fuel { digits := d.digits / 10, scale := d.scale + 1 }
      else d

/-- How many digits stand before the point of a positive number; none or fewer below one. -/
def digitsBeforePoint (i : Interval) : Int :=
  Binary64.digitCount (i.value * Nat.pow 10 400 / i.den) - 400

/-- The shortest decimal that reads back as a positive number.  Seventeen digits always do. -/
def shortest (significand : Nat) (exponent : Int) : Decimal :=
  let i := roundingInterval significand exponent
  match firstOnGrid? i (digitsBeforePoint i) 17 1 with
  | some d => stripZeros 20 d
  | none => { digits := significand, scale := exponent }

/-! ### Writing a number -/

structure Style where
  /-- Numbers with fewer zeros than this behind the point are written out. -/
  leadingZeros : Int
  /-- Numbers with at most this many digits before the point are written out. -/
  positionalDigits : Int
  /-- The least number of digits of an exponent. -/
  exponentDigits : Nat
  infinity : Text
  nan : Text

/-- The digits of a decimal with a point, and the part behind the point never empty. -/
def positional (digits : Text) (point : Int) : Text :=
  if point ≤ 0 then ['0', '.'] ++ List.replicate (-point).toNat '0' ++ digits
  else if digits.length ≤ point.toNat then
    digits ++ List.replicate (point.toNat - digits.length) '0' ++ ['.', '0']
  else digits.take point.toNat ++ '.' :: digits.drop point.toNat

/-- The digits of a decimal with the point behind the first one, and an exponent. -/
def scientific (style : Style) (digits : Text) (point : Int) : Text :=
  let exponent := point - 1
  let mark : Text := if exponent < 0 then ['e', '-'] else ['e', '+']
  digits.take 1 ++ (if digits.length ≤ 1 then [] else '.' :: digits.drop 1) ++ mark ++
    Text.padLeft style.exponentDigits '0' (Text.ofNat exponent.natAbs)

def write (style : Style) : Binary64 → Text
  | .nan => style.nan
  | .infinity negative => if negative then '-' :: style.infinity else style.infinity
  | .finite negative significand exponent =>
      let body :=
        if significand = 0 then positional ['0'] 1
        else
          let d := shortest significand exponent
          let digits := Text.ofNat d.digits
          let point := digits.length + d.scale
          if -style.leadingZeros < point ∧ point ≤ style.positionalDigits then
            positional digits point
          else scientific style digits point
      if negative then '-' :: body else body

end Decimal

end SolidityBundler
