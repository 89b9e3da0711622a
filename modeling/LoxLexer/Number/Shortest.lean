import LoxLexer.Number.Binary64

/-!
# Shortest decimals

A number is written with the fewest significant digits that read back as the same number. The
decimals that do so fill an interval: it reaches half a step up and half a step down, where the
step down from a power of two is half as wide, and its ends belong to it when the significand is
even. For each count of digits only the two neighbours of the number on that decimal grid can lie
in the interval without a nearer one lying there too.

Numbers are always written out in full, without an exponent.

## Main definitions

* `Decimal`: a whole number of digits with a power of ten
* `Binary64.interval`: the decimals that read back as a number
* `Binary64.shortest`: the decimal that is written
* `Decimal.positional`: a decimal in digits and a point
* `Binary64.display`: the text of any number
-/

namespace LoxLexer

/-- The decimal `digits * 10 ^ exponent`. -/
structure Decimal where
  /-- The significant digits, as one number. -/
  digits : Nat
  /-- The power of ten. -/
  exponent : Int
deriving DecidableEq, Repr, Inhabited

namespace Decimal

/-- The digits of a whole number, greatest first. -/
def natDigits (n : Nat) : List Char :=
  Nat.toDigits 10 n

/-- How many digits a whole number has. -/
def digitCount (n : Nat) : Nat :=
  (natDigits n).length

/-- A decimal in plain digits: zeros fill the places up to the point, and a point is written only
before a fraction. -/
def positional (d : Decimal) : String :=
  let digits := natDigits d.digits
  let places := (-d.exponent).toNat
  String.ofList <|
    if places = 0 then digits ++ List.replicate d.exponent.toNat '0'
    else if digits.length ≤ places then
      '0' :: '.' :: (List.replicate (places - digits.length) '0' ++ digits)
    else digits.take (digits.length - places) ++ '.' :: digits.drop (digits.length - places)

end Decimal

/-- An interval of magnitudes around a number, in units of `2 ^ -1076`. -/
structure Interval where
  /-- The lower end. -/
  low : Nat
  /-- The number itself. -/
  centre : Nat
  /-- The upper end. -/
  high : Nat
  /-- The ends belong to the interval. -/
  closed : Bool
deriving DecidableEq, Repr

/-- The interval has the fraction `n / d` as a member. -/
def Interval.has (i : Interval) (n d : Nat) : Bool :=
  if i.closed then i.low * d ≤ n && n ≤ i.high * d
  else i.low * d < n && n < i.high * d

/-- The power of ten of the first significant digit of `n / d`. -/
def leadingExponent (n d : Nat) : Int :=
  if d ≤ n then (Decimal.digitCount (n / d) - 1 : Nat)
  else -(Decimal.digitCount ((d - 1) / n) : Nat)

namespace Binary64

/-- **The decimals that read back.** A quarter of a grid step is the unit, so that half a step
down from a power of two is still whole. -/
def interval (x : Binary64) : Interval :=
  let step := twoPow x.spacing
  let centre := 4 * x.significand * step
  let below := if x.significand = twoPow 52 && 0 < x.spacing then step else 2 * step
  { low := centre - below, centre, high := centre + 2 * step, closed := x.significand % 2 = 0 }

/-- The nearer of the two neighbours of an interval's centre among the multiples of
`10 ^ exponent` that the interval has as members; of two at the same distance the greater. -/
def neighbour? (i : Interval) (exponent : Int) : Option Decimal :=
  let step := tenPow exponent.toNat * twoPow 1076
  let scale := tenPow (-exponent).toNat
  let below := i.centre * scale / step
  let rest := i.centre * scale % step
  match i.has (below * step) scale, i.has ((below + 1) * step) scale with
  | false, false => none
  | true, false => some ⟨below, exponent⟩
  | false, true => some ⟨below + 1, exponent⟩
  | true, true => some ⟨if 2 * rest < step then below else below + 1, exponent⟩

/-- A decimal without the zeros that its digits end in. -/
def trim (d : Decimal) : Nat → Decimal
  | 0 => d
  | n + 1 => if d.digits % 10 = 0 then trim ⟨d.digits / 10, d.exponent + 1⟩ n else d

/-- **The shortest decimal** that reads back as a finite number other than zero. Seventeen digits
always suffice. -/
def shortest (x : Binary64) : Decimal :=
  let i := x.interval
  let first := leadingExponent i.centre (twoPow 1076)
  let found := (List.range 17).findSome? fun (more : Nat) => neighbour? i (first - more)
  trim (found.getD ⟨0, 0⟩) 17

/-- **The text of a number**: its shortest decimal in plain digits, with a sign if its sign bit is
set, also for zero. -/
def display (x : Binary64) : String :=
  if x.isNaN then "NaN"
  else
    let size :=
      if x.isInfinite then "inf"
      else if x.magnitude = 0 then "0"
      else x.shortest.positional
    if x.isNegative then "-" ++ size else size

end Binary64

end LoxLexer
