/-!
# Binary64 numbers

A number of the language is a 64-bit floating-point word. Everything is exact arithmetic on the
word: the magnitude of a finite number is a whole multiple of `2 ^ -1074`, the spacing of the
grid doubles with every step of the exponent, and the words in order run through the grid in
order. Reading a decimal therefore means to find the spacing that fits, to round once, and to add.

## Main definitions

* `Binary64.significand`, `Binary64.spacing`: the magnitude is `significand * 2 ^ spacing` units
* `Binary64.same`: equality of numbers, under which a NaN differs from itself and the two zeros
  agree
* `roundHalfEven n d`: the whole number nearest to `n / d`, a half going to the even neighbour
* `Binary64.ofRatio n d`: the number nearest to `n / d`
* `Binary64.natOfDigits`: the whole number that a string of digits denotes
* `Binary64.ofDigits`: the number that a decimal numeral denotes

## Main results

* `roundHalfEven_le`, `le_roundHalfEven`: rounding moves by at most one half
* `Binary64.natOfDigits_eq_foldl`: digits are read from the left, each worth a tenth of the one
  before
-/

namespace LoxLexer

/-- The powers of two. -/
def twoPow (n : Nat) : Nat :=
  Nat.pow 2 n

/-- The powers of ten. -/
def tenPow (n : Nat) : Nat :=
  Nat.pow 10 n

/-- A binary64 number, as its word. -/
structure Binary64 where
  /-- The word: a sign bit, eleven exponent bits and fifty-two fraction bits. -/
  bits : UInt64
deriving Repr, Inhabited

namespace Binary64

/-- The word without its sign bit. -/
def magnitude (x : Binary64) : Nat :=
  x.bits.toNat % twoPow 63

/-- The sign bit is set. -/
def isNegative (x : Binary64) : Bool :=
  twoPow 63 ≤ x.bits.toNat

/-- The magnitude of the infinities; all greater ones are NaNs. -/
def infinity : Nat := 2047 * twoPow 52

/-- The word holds no number. -/
def isNaN (x : Binary64) : Bool :=
  infinity < x.magnitude

/-- The word that stands for what is no number. -/
def nan : Binary64 := ⟨0x7FF8000000000000⟩

/-- The word is one of the two infinities. -/
def isInfinite (x : Binary64) : Bool :=
  x.magnitude = infinity

/-- The grid around a finite number has the spacing `2 ^ spacing` units of `2 ^ -1074`. -/
def spacing (x : Binary64) : Nat :=
  x.magnitude / twoPow 52 - 1

/-- The number of grid steps from zero to a finite number, at its own spacing. -/
def significand (x : Binary64) : Nat :=
  x.magnitude - x.spacing * twoPow 52

/-- **Equality of numbers.** A NaN equals nothing, and the two zeros are equal. -/
def same (x y : Binary64) : Bool :=
  !x.isNaN && !y.isNaN && (x.bits == y.bits || (x.magnitude == 0 && y.magnitude == 0))

instance : BEq Binary64 := ⟨same⟩

end Binary64

/-- The whole number nearest to `n / d`; a half goes to the even neighbour. -/
def roundHalfEven (n d : Nat) : Nat :=
  let q := n / d
  let r := n % d
  if 2 * r < d then q
  else if d < 2 * r then q + 1
  else q + q % 2

theorem roundHalfEven_le (n d : Nat) : 2 * (roundHalfEven n d * d) ≤ 2 * n + d := by
  have h : d * (n / d) + n % d = n := Nat.div_add_mod n d
  simp only [roundHalfEven]
  rw [Nat.mul_comm d] at h
  split
  · omega
  · have hm : n / d % 2 = 0 ∨ n / d % 2 = 1 := by omega
    split
    · rw [Nat.add_mul]; omega
    · rcases hm with hm | hm <;> rw [hm] <;> simp only [Nat.add_mul] <;> omega

theorem le_roundHalfEven (n : Nat) {d : Nat} (hd : 0 < d) :
    2 * n ≤ 2 * (roundHalfEven n d * d) + d := by
  have h : d * (n / d) + n % d = n := Nat.div_add_mod n d
  have hr : n % d < d := Nat.mod_lt n hd
  simp only [roundHalfEven]
  rw [Nat.mul_comm d] at h
  split
  · omega
  · have hm : n / d % 2 = 0 ∨ n / d % 2 = 1 := by omega
    split
    · rw [Nat.add_mul]; omega
    · rcases hm with hm | hm <;> rw [hm] <;> simp only [Nat.add_mul] <;> omega

namespace Binary64

/-- **Correct rounding**: the number nearest to `n / d`, a half going to the even significand.
What lies half a step or more beyond the greatest finite number is infinite. -/
def ofRatio (n d : Nat) : Binary64 :=
  let units := n * twoPow 1074
  let spacing := (units / d).log2 - 52
  let word := spacing * twoPow 52 + roundHalfEven units (d * twoPow spacing)
  ⟨(min word infinity).toUInt64⟩

/-- The value of a decimal digit. -/
def digitValue (b : UInt8) : Nat :=
  b.toNat - 48

/-- The whole number that digits denote behind `high * scale + low`. The low part grows digit by
digit and joins the high part once it has eighteen, so that long numerals need few operations on
long numbers. -/
def natOfDigitsFrom (high low scale : Nat) : List UInt8 → Nat
  | [] => high * scale + low
  | b :: bs =>
    if tenPow 18 ≤ scale then natOfDigitsFrom (high * scale + low) (digitValue b) 10 bs
    else natOfDigitsFrom high (low * 10 + digitValue b) (scale * 10) bs

/-- The whole number that a string of decimal digits denotes. -/
def natOfDigits (digits : List UInt8) : Nat :=
  natOfDigitsFrom 0 0 1 digits

theorem natOfDigitsFrom_eq_foldl (high low scale : Nat) (digits : List UInt8) :
    natOfDigitsFrom high low scale digits =
      digits.foldl (fun n b => n * 10 + digitValue b) (high * scale + low) := by
  induction digits generalizing high low scale with
  | nil => rfl
  | cons b bs ih =>
    simp only [natOfDigitsFrom, List.foldl_cons]
    split
    · rw [ih]
    · rw [ih, Nat.add_mul, Nat.mul_assoc, Nat.add_assoc]

theorem natOfDigits_eq_foldl (digits : List UInt8) :
    natOfDigits digits = digits.foldl (fun n b => n * 10 + digitValue b) 0 := by
  rw [natOfDigits, natOfDigitsFrom_eq_foldl, Nat.zero_mul]

/-- The number nearest to the decimal with the given digits before and after its point. -/
def ofDigits (whole fraction : List UInt8) : Binary64 :=
  ofRatio (natOfDigits (whole ++ fraction)) (tenPow fraction.length)

end Binary64

end LoxLexer
