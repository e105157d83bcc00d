/-
Floating-point numbers of 64 bits.

A finite number is a significand of at most 53 bits times a power of two, kept exactly.
`ofDecimal` gives the number nearest to a decimal; of two equally near ones it takes the
one with the even significand.
-/
namespace SolidityBundler

/-- A number in the binary format of 64 bits. -/
inductive Binary64
  /-- `significand` times two to the power `exponent`. -/
  | finite (negative : Bool) (significand : Nat) (exponent : Int)
  | infinity (negative : Bool)
  | nan
  deriving DecidableEq, Repr

namespace Binary64

def isPositive : Binary64 → Bool
  | .finite negative significand _ => !negative && significand != 0
  | .infinity negative => !negative
  | .nan => false

def leastExponent : Int := -1074

def greatestExponent : Int := 971

/-- The first number that needs more than 53 bits. -/
def significandBound : Nat := Nat.pow 2 53

/-- A quotient rounded to the nearest integer, halves to the even one. -/
def roundedQuotient (num den : Nat) : Nat :=
  let quotient := num / den
  let twice := 2 * (num % den)
  if twice < den then quotient
  else if den < twice then quotient + 1
  else if quotient % 2 = 0 then quotient else quotient + 1

def scaleDown (num den : Nat) (exponent : Int) : Nat × Nat :=
  if 0 ≤ exponent then (num, den * Nat.pow 2 exponent.toNat)
  else (num * Nat.pow 2 (-exponent).toNat, den)

/-- The exponent at which a positive fraction has a significand of 53 bits, or the least one. -/
def exponentFor (num den : Nat) : Int :=
  let guess : Int := num.log2 - den.log2 - 52
  let (n, d) := scaleDown num den guess
  max leastExponent (if n < Nat.pow 2 52 * d then guess - 1 else guess)

def ofFraction (negative : Bool) (num den : Nat) : Binary64 :=
  if num = 0 then .finite negative 0 leastExponent
  else
    let exponent := exponentFor num den
    let (n, d) := scaleDown num den exponent
    let significand := roundedQuotient n d
    let (significand, exponent) :=
      if significand = significandBound then (significand / 2, exponent + 1)
      else (significand, exponent)
    if greatestExponent < exponent then .infinity negative
    else .finite negative significand exponent

def digitCount (n : Nat) : Nat := (Nat.toDigits 10 n).length

/-- The number nearest to `digits` times ten to the power `scale`.  Decimals far beyond the
range are settled by their size alone. -/
def ofDecimal (negative : Bool) (digits : Nat) (scale : Int) : Binary64 :=
  let size : Int := digitCount digits + scale
  if digits = 0 then .finite negative 0 leastExponent
  else if 310 < size then .infinity negative
  else if size < -330 then .finite negative 0 leastExponent
  else if 0 ≤ scale then ofFraction negative (digits * Nat.pow 10 scale.toNat) 1
  else ofFraction negative digits (Nat.pow 10 (-scale).toNat)

end Binary64

end SolidityBundler
