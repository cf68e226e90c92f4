/-!
# Binary floating point numbers

The 64-bit binary format as exact data: a finite number is `± mantissa · 2 ^ exponent`. The one
operation a reader of documents needs is **rounding** a decimal to the nearest number of the format
(`ofDecimal`), ties to the even mantissa, done in exact integer arithmetic.
-/

namespace TypeScribe.Number

/-- A number of the 64-bit binary format. A finite one has a mantissa below `2 ^ 53` and the least
possible exponent, which is `-1074` at the bottom of the range. -/
inductive Binary64 where
  | finite (negative : Bool) (mantissa : Nat) (exponent : Int)
  | infinite (negative : Bool)
  | nan
  deriving Repr, DecidableEq, Inhabited

namespace Binary64

/-- A power of two. -/
def twoPow (n : Nat) : Nat := Nat.pow 2 n

/-- A power of ten. -/
def tenPow (n : Nat) : Nat := Nat.pow 10 n

/-- Zero, of either sign. -/
def zero (negative : Bool) : Binary64 := .finite negative 0 (-1074)

/-- Whether the number is zero, of either sign. -/
def isZero : Binary64 → Bool
  | .finite _ 0 _ => true
  | _ => false

/-- The quotient `num / den` to the nearest integer, a half going to the even neighbour. -/
def divRound (num den : Nat) : Nat :=
  let q := num / den
  let twice := 2 * (num % den)
  if twice < den then q
  else if twice > den then q + 1
  else if q % 2 = 0 then q
  else q + 1

/-- `num / den` divided by `2 ^ exponent`, as a fraction again. -/
def scaleDown (num den : Nat) (exponent : Int) : Nat × Nat :=
  if 0 ≤ exponent then (num, den * twoPow exponent.toNat) else (num * twoPow (-exponent).toNat, den)

/-- The exponent with which `num / den` has a mantissa of 53 bits, or `-1074` if that is more. -/
def exponentOf (num den : Nat) : Int :=
  let guess : Int := (num.log2 : Int) - (den.log2 : Int) - 53
  let (n, d) := scaleDown num den guess
  let exact := if n / d < twoPow 53 then guess else guess + 1
  if exact < -1074 then -1074 else exact

/-- The number nearest to the positive fraction `num / den`. -/
def ofFraction (negative : Bool) (num den : Nat) : Binary64 :=
  let exponent := exponentOf num den
  let (n, d) := scaleDown num den exponent
  let mantissa := divRound n d
  let (mantissa, exponent) :=
    if mantissa = twoPow 53 then (twoPow 52, exponent + 1) else (mantissa, exponent)
  if exponent > 971 then .infinite negative else .finite negative mantissa exponent

/-- The count of decimal digits of a number. -/
def digitCount (n : Nat) : Nat := (Nat.toDigits 10 n).length

/-- **Rounding.** The number nearest to `± digits · 10 ^ exponent`. Decimals far outside the range
are decided by their magnitude alone, so that the exponent may be any integer. -/
def ofDecimal (negative : Bool) (digits : Nat) (exponent : Int) : Binary64 :=
  if digits = 0 then zero negative
  else
    let magnitude : Int := exponent + digitCount digits
    if magnitude > 310 then .infinite negative
    else if magnitude < -330 then zero negative
    else if 0 ≤ exponent then ofFraction negative (digits * tenPow exponent.toNat) 1
    else ofFraction negative digits (tenPow (-exponent).toNat)

end Binary64

end TypeScribe.Number
