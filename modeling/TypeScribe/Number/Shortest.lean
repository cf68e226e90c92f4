import TypeScribe.Number.Binary64

/-!
# Shortest decimals

The text of a floating point number has the **fewest digits that read back** as that number, and
among those of that length the nearest ones. For one digit, two digits, and so on, the two
neighbours of the number on the decimal grid of that length are tried against the interval of reals
that round to it; seventeen digits always suffice.
-/

namespace TypeScribe.Number

/-- A positive decimal `0.d₁d₂… · 10 ^ point`, where `digits` are the digits `d₁d₂…`. -/
structure Decimal where
  digits : List Char
  point : Int
  deriving Repr, DecidableEq

namespace Shortest

open Binary64 (twoPow tenPow)

/-- The reals that round to a number, in quarters of its last binary place: between `low` and `high`
times `2 ^ place`, the ends included if `closed`. -/
structure Interval where
  low : Nat
  value : Nat
  high : Nat
  place : Int
  closed : Bool

/-- The interval of `mantissa · 2 ^ exponent`. Below a power of two the numbers lie twice as close,
except at the bottom of the range. -/
def interval (mantissa : Nat) (exponent : Int) : Interval where
  low := if mantissa = twoPow 52 ∧ exponent > -1074 then 4 * mantissa - 1 else 4 * mantissa - 2
  value := 4 * mantissa
  high := 4 * mantissa + 2
  place := exponent - 2
  closed := mantissa % 2 = 0

/-- `a · 10 ^ grid` and `b · 2 ^ place` over one denominator. -/
def align (grid place : Int) (a b : Nat) : Nat × Nat :=
  (a * tenPow grid.toNat * twoPow (-place).toNat, b * twoPow place.toNat * tenPow (-grid).toNat)

/-- Whether `a · 10 ^ grid` lies in the interval. -/
def Interval.holds (i : Interval) (grid : Int) (a : Nat) : Bool :=
  let (x, low) := align grid i.place a i.low
  let (_, high) := align grid i.place a i.high
  if i.closed then low ≤ x && x ≤ high else low < x && x < high

/-- The distance of `a · 10 ^ grid` from the number, in some fixed unit. -/
def Interval.distance (i : Interval) (grid : Int) (a : Nat) : Nat :=
  let (x, v) := align grid i.place a i.value
  if x ≤ v then v - x else x - v

/-- The greatest grid point that is not above the number. -/
def Interval.below (i : Interval) (grid : Int) : Nat :=
  let (unit, v) := align grid i.place 1 i.value
  v / unit

/-- The point of a grid that reads back, if there is one: of two the nearer, and of two equally near
the even one. -/
def Interval.pick (i : Interval) (grid : Int) : Option Nat :=
  let a := i.below grid
  match i.holds grid a, i.holds grid (a + 1) with
  | false, false => none
  | true, false => some a
  | false, true => some (a + 1)
  | true, true =>
    let (d, u) := (i.distance grid a, i.distance grid (a + 1))
    if d < u then some a else if u < d then some (a + 1) else if a % 2 = 0 then some a else some (a + 1)

/-- The count of digits before the decimal point, zero or less for numbers below one tenth and so
on: the `p` with `10 ^ (p - 1) ≤ number < 10 ^ p`. -/
def Interval.magnitude (i : Interval) : Int :=
  let (one, v) := align 0 i.place 1 i.value
  if one ≤ v then Binary64.digitCount (v / one)
  else
    let k := Binary64.digitCount (one / v)
    if one ≤ v * tenPow (k - 1) then 2 - (k : Int) else 1 - (k : Int)

/-- The first grid with a point that reads back, with that point, trying `count` lengths from
`length` on. -/
def search (i : Interval) (magnitude : Int) : (count length : Nat) → Nat × Int
  | 0, length => (i.below (magnitude - length), magnitude - length)
  | count + 1, length =>
    match i.pick (magnitude - length) with
    | some a => (a, magnitude - length)
    | none => search i magnitude count (length + 1)

/-- The decimal `a · 10 ^ grid`, without zeros at its end. -/
def toDecimal (a : Nat) (grid : Int) : Decimal :=
  let digits := Nat.toDigits 10 a
  ⟨(digits.reverse.dropWhile (· == '0')).reverse, grid + digits.length⟩

end Shortest

/-- **Shortest decimal** of the positive number `mantissa · 2 ^ exponent`. -/
def shortest (mantissa : Nat) (exponent : Int) : Decimal :=
  let i := Shortest.interval mantissa exponent
  let (a, grid) := Shortest.search i i.magnitude 17 1
  Shortest.toDecimal a grid

namespace Decimal

/-- A count of zeros. -/
def zeros (n : Nat) : List Char := List.replicate n '0'

/-- The decimal written with a decimal point. -/
def positional (d : Decimal) : List Char :=
  if d.point ≤ 0 then
    '0' :: '.' :: (zeros (-d.point).toNat ++ d.digits)
  else if d.digits.length ≤ d.point.toNat then
    d.digits ++ zeros (d.point.toNat - d.digits.length) ++ ['.', '0']
  else
    d.digits.take d.point.toNat ++ '.' :: d.digits.drop d.point.toNat

/-- The decimal written with an exponent of at least two digits. -/
def scientific (d : Decimal) : List Char :=
  let exponent := d.point - 1
  let places := Nat.toDigits 10 exponent.natAbs
  let mantissa :=
    match d.digits with
    | [] => []
    | [c] => [c]
    | c :: rest => c :: '.' :: rest
  mantissa ++ 'e' :: (if exponent < 0 then '-' else '+') :: (zeros (2 - places.length) ++ places)

/-- The decimal as text: positional from `0.0001` up to, and without, `10 ^ 16`. -/
def text (d : Decimal) : List Char :=
  if -4 < d.point ∧ d.point ≤ 16 then d.positional else d.scientific

end Decimal

namespace Binary64

/-- The sign in front of a number. -/
def signText (negative : Bool) : String := if negative then "-" else ""

/-- **Text of a number**, with the given words for what is no number and for infinity. -/
def text (nan infinity : String) : Binary64 → String
  | .nan => nan
  | .infinite negative => signText negative ++ infinity
  | .finite negative 0 _ => signText negative ++ "0.0"
  | .finite negative mantissa exponent =>
    signText negative ++ String.ofList (shortest mantissa exponent).text

end Binary64

end TypeScribe.Number
