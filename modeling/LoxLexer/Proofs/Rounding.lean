import Mathlib.Algebra.Order.Field.Power
import Mathlib.Algebra.Order.Field.Rat
import Mathlib.Tactic.Linarith
import Mathlib.Tactic.LinearCombination
import Mathlib.Tactic.Positivity
import Mathlib.Tactic.Ring
import LoxLexer.Number.Binary64

/-!
# Correct rounding

The value of a binary64 word is the rational that the floating-point standard gives it, by sign,
exponent and fraction. In units of `2 ^ -1074` the words without a sign run through the grid of all
magnitudes in increasing order, and infinity stands where the next number would be. Rounding a ratio
finds the word next to it: the quotient is rounded at the spacing of its own binade, where the grid
is even, and the grid is nowhere coarser below and nowhere finer above. So no word is nearer, and if
another one is as near, then the quotient lay halfway and was rounded to the even neighbour. What is
infinite is so for the same reason: it is not nearer to the greatest finite number.

## Main definitions

* `Binary64.value x`: the rational that the finite word `x` stands for
* `Binary64.Nearest q x`: no finite number is nearer to `q` than `x`, and `x` is even in a tie
* `Binary64.units w`: the magnitude of the word `w`, in units of `2 ^ -1074`
* `Binary64.wordOf n d`: the word that rounding `n / d` units finds

## Main results

* `Binary64.strictMono_units`: words are ordered as their magnitudes
* `Binary64.lt_or_even`: any other word is farther from the quotient, or the one found is even
* `Binary64.infinity_le_wordOf_iff`: what is rounded to infinity
* `Binary64.isInfinite_ofRatio_iff`: the least ratio that is infinite
* `Binary64.nearest_ofRatio`: ratios are rounded to the nearest number
-/

namespace LoxLexer

/-! ## Rounding to whole numbers -/

section Whole

variable {n d k : ℕ}

theorem twoPow_eq (n : ℕ) : twoPow n = 2 ^ n := rfl

theorem roundHalfEven_le_of_le (hd : 0 < d) (h : n ≤ k * d) : roundHalfEven n d ≤ k := by
  have bound := roundHalfEven_le n d
  by_contra hlt
  have step : (k + 1) * d ≤ roundHalfEven n d * d := Nat.mul_le_mul_right d (by omega)
  rw [Nat.add_mul, Nat.one_mul] at step
  omega

theorem le_roundHalfEven_of_le (hd : 0 < d) (h : k * d ≤ n) : k ≤ roundHalfEven n d := by
  have bound := le_roundHalfEven n hd
  by_contra hlt
  have step : (roundHalfEven n d + 1) * d ≤ k * d := Nat.mul_le_mul_right d (by omega)
  rw [Nat.add_mul, Nat.one_mul] at step
  omega

/-- **A half goes to the even neighbour.** -/
theorem even_roundHalfEven (hd : 0 < d)
    (h : 2 * (roundHalfEven n d * d) = 2 * n + d ∨ 2 * n = 2 * (roundHalfEven n d * d) + d) :
    roundHalfEven n d % 2 = 0 := by
  have split : n / d * d + n % d = n := Nat.div_add_mod' n d
  have small : n % d < d := Nat.mod_lt n hd
  simp only [roundHalfEven] at h ⊢
  split_ifs at h ⊢ with hlow hhigh
  · omega
  · rw [Nat.add_mul] at h
    omega
  · omega

end Whole

namespace Binary64

/-! ## Values -/

section Value

/-- The exponent bits of a word. -/
def exponent (x : Binary64) : ℕ :=
  x.magnitude / 2 ^ 52

/-- The fraction bits of a word. -/
def fraction (x : Binary64) : ℕ :=
  x.magnitude % 2 ^ 52

/-- The word stands for a finite number. -/
def isFinite (x : Binary64) : Bool :=
  x.magnitude < infinity

/-- **The value of a finite number**: a sign, a power of two and a significand, which has a leading
one unless the exponent bits are zero. -/
def value (x : Binary64) : ℚ :=
  (if x.isNegative then -1 else 1) *
    if x.exponent = 0 then x.fraction / 2 ^ 52 * (2 : ℚ) ^ (-1022 : ℤ)
    else (1 + x.fraction / 2 ^ 52) * (2 : ℚ) ^ ((x.exponent : ℤ) - 1023)

/-- **A finite number that is nearest to a rational**: no other finite number is nearer, and if one
is as near, then the last bit of this one is zero. -/
structure Nearest (q : ℚ) (x : Binary64) : Prop where
  /-- No finite number is nearer. -/
  le : ∀ y : Binary64, y.isFinite = true → |x.value - q| ≤ |y.value - q|
  /-- A tie goes to the even one. -/
  even : ∀ y : Binary64, y.isFinite = true → y.value ≠ x.value →
    |y.value - q| = |x.value - q| → x.bits.toNat % 2 = 0

end Value

/-! ## The grid of magnitudes -/

section Grid

variable {s m : ℕ}

/-- The magnitude of a word without its sign, in units of `2 ^ -1074`. -/
def units (w : ℕ) : ℕ :=
  (w - (w / 2 ^ 52 - 1) * 2 ^ 52) * 2 ^ (w / 2 ^ 52 - 1)

/-- A significand at a spacing of `2 ^ s` units. It has its leading one, unless the spacing is the
least; the one that would overflow is the first at the next spacing. -/
structure Fitting (s m : ℕ) : Prop where
  le : m ≤ 2 ^ 53
  leading : s = 0 ∨ 2 ^ 52 ≤ m

/-- **Words are significands at their spacing.** -/
theorem units_eq (h : Fitting s m) : units (s * 2 ^ 52 + m) = m * 2 ^ s := by
  obtain ⟨hle, hleading⟩ := h
  rcases Nat.eq_or_lt_of_le hle with rfl | hlt
  · -- the significand of the next spacing is half of this one
    have place : (s * 2 ^ 52 + 2 ^ 53) / 2 ^ 52 - 1 = s + 1 := by omega
    have half : s * 2 ^ 52 + 2 ^ 53 - (s + 1) * 2 ^ 52 = 2 ^ 52 := by omega
    rw [units, place, half, pow_succ 2 s, pow_succ 2 52]
    ring
  · have place : (s * 2 ^ 52 + m) / 2 ^ 52 - 1 = s := by omega
    rw [units, place, Nat.add_sub_cancel_left]

theorem exists_fitting (w : ℕ) : ∃ s m, w = s * 2 ^ 52 + m ∧ Fitting s m := by
  refine ⟨w / 2 ^ 52 - 1, w - (w / 2 ^ 52 - 1) * 2 ^ 52, ?_, ?_, ?_⟩ <;> omega

@[simp] theorem units_zero : units 0 = 0 := rfl

/-- The next word is at least one step up. -/
theorem units_add_le (h : Fitting s m) : m * 2 ^ s + 2 ^ s ≤ units (s * 2 ^ 52 + m + 1) := by
  obtain ⟨hle, hleading⟩ := h
  rcases Nat.eq_or_lt_of_le hle with rfl | hlt
  · have next : s * 2 ^ 52 + 2 ^ 53 + 1 = (s + 1) * 2 ^ 52 + (2 ^ 52 + 1) := by omega
    rw [next, units_eq ⟨by omega, .inr (by omega)⟩, pow_succ 2 s, pow_succ 2 52]
    have := Nat.two_pow_pos s
    linarith
  · rw [Nat.add_assoc, units_eq ⟨by omega, by omega⟩, Nat.add_mul, Nat.one_mul]

/-- **Words are ordered as their magnitudes.** -/
theorem strictMono_units : StrictMono units := by
  apply strictMono_nat_of_lt_succ
  intro w
  obtain ⟨s, m, rfl, hfits⟩ := exists_fitting w
  have step := units_add_le hfits
  have := Nat.two_pow_pos s
  rw [units_eq hfits]
  omega

theorem fitting_infinity : Fitting 2046 (2 ^ 52) := ⟨by norm_num, .inr le_rfl⟩

theorem infinity_eq : infinity = 2046 * 2 ^ 52 + 2 ^ 52 := rfl

/-- Infinity stands where the next number would be. -/
theorem units_infinity : units infinity = 2 ^ 54 * 2 ^ 2044 := by
  rw [infinity_eq, units_eq fitting_infinity, ← pow_add, ← pow_add]

/-- The greatest finite number. -/
theorem units_greatest : units (infinity - 1) = (2 ^ 54 - 2) * 2 ^ 2044 := by
  have greatest : infinity - 1 = 2045 * 2 ^ 52 + (2 ^ 53 - 1) := rfl
  rw [greatest, units_eq ⟨by norm_num, .inr (by norm_num)⟩, pow_succ' 2 2044,
    ← Nat.mul_assoc, Nat.sub_mul, ← pow_succ, Nat.one_mul]

end Grid

/-- **The value of a finite number, on the grid.** -/
theorem value_eq (x : Binary64) :
    x.value = (if x.isNegative then -1 else 1) * (units x.magnitude / 2 ^ 1074) := by
  have parts : x.magnitude = x.exponent * 2 ^ 52 + x.fraction := (Nat.div_add_mod' _ _).symm
  have small : x.fraction < 2 ^ 52 := Nat.mod_lt _ (by norm_num)
  have join (a b : ℚ) : a / 2 ^ 52 * (b / 2 ^ 1022) = a * b / 2 ^ 1074 := by
    rw [div_mul_div_comm, ← pow_add]
  rw [value, parts]
  congr 1
  split
  · rename_i hzero
    rw [hzero, units_eq ⟨by omega, .inl rfl⟩, zpow_neg, zpow_ofNat, ← one_div, join]
    push_cast
    rfl
  · rename_i hpos
    -- the leading one is that of the spacing below the exponent
    obtain ⟨e, he⟩ := Nat.exists_eq_succ_of_ne_zero hpos
    have lead : (e + 1) * 2 ^ 52 + x.fraction = e * 2 ^ 52 + (2 ^ 52 + x.fraction) := by omega
    have power : (2 : ℚ) ^ (((e + 1 : ℕ) : ℤ) - 1023) = 2 ^ e / 2 ^ 1022 := by
      rw [show ((e + 1 : ℕ) : ℤ) - 1023 = (e : ℤ) - (1022 : ℕ) by push_cast; ring,
        zpow_sub₀ two_ne_zero, zpow_natCast, zpow_natCast]
    have one : 1 + (x.fraction : ℚ) / 2 ^ 52 = (2 ^ 52 + x.fraction) / 2 ^ 52 := by
      rw [add_div, div_self (by positivity)]
    rw [he, Nat.succ_eq_add_one, power, lead, units_eq ⟨by omega, .inr (by omega)⟩, one, join]
    push_cast
    rfl

/-! ## The word next to a ratio -/

section Word

variable {n d : ℕ}

/-- The word that rounding `n / d` units finds, before infinity bounds it. -/
def wordOf (n d : ℕ) : ℕ :=
  ((n / d).log2 - 52) * 2 ^ 52 + roundHalfEven n (d * 2 ^ ((n / d).log2 - 52))

/-- **What rounding finds**: the quotient, rounded at the spacing of its binade. -/
theorem exists_wordOf (n : ℕ) (hd : 0 < d) :
    ∃ s m, wordOf n d = s * 2 ^ 52 + m ∧ m = roundHalfEven n (d * 2 ^ s) ∧ Fitting s m ∧
      (s = 0 ∨ 2 ^ 52 * (d * 2 ^ s) ≤ n) := by
  have below : n / d * d ≤ n := Nat.div_mul_le_self n d
  have above : n < (n / d + 1) * d := by
    rw [Nat.add_mul, Nat.one_mul]
    exact Nat.lt_div_mul_add hd
  refine ⟨_, _, rfl, rfl, ?_⟩
  -- up to `2 ^ 53` units the spacing is one; beyond, it leaves the quotient 53 bits
  by_cases hsmall : n / d < 2 ^ 53
  · have hlog : (n / d).log2 - 52 = 0 := by
      by_cases hzero : n / d = 0
      · rw [hzero]
        rfl
      · have := (Nat.log2_lt hzero).mpr hsmall
        omega
    rw [hlog, pow_zero, Nat.mul_one]
    have bound : n ≤ 2 ^ 53 * d := above.le.trans (Nat.mul_le_mul_right d hsmall)
    exact ⟨⟨roundHalfEven_le_of_le hd bound, .inl rfl⟩, .inl rfl⟩
  · have hzero : n / d ≠ 0 := by omega
    have hlog : 53 ≤ (n / d).log2 := by
      by_contra hlt
      exact hsmall ((Nat.log2_lt hzero).mp (by omega))
    obtain ⟨s, hs⟩ := Nat.exists_eq_add_of_le hlog
    have spacing : (n / d).log2 - 52 = s + 1 := by omega
    have low : 2 ^ (53 + s) ≤ n / d := hs ▸ Nat.log2_self_le hzero
    have high : n / d + 1 ≤ 2 ^ (53 + s + 1) := hs ▸ Nat.lt_log2_self
    rw [spacing]
    have lower : 2 ^ 52 * (d * 2 ^ (s + 1)) ≤ n := by
      calc 2 ^ 52 * (d * 2 ^ (s + 1)) = 2 ^ (53 + s) * d := by ring
        _ ≤ n / d * d := Nat.mul_le_mul_right d low
        _ ≤ n := below
    have upper : n ≤ 2 ^ 53 * (d * 2 ^ (s + 1)) := by
      calc n ≤ (n / d + 1) * d := above.le
        _ ≤ 2 ^ (53 + s + 1) * d := Nat.mul_le_mul_right d high
        _ = 2 ^ 53 * (d * 2 ^ (s + 1)) := by ring
    have hstep : 0 < d * 2 ^ (s + 1) := Nat.mul_pos hd (Nat.two_pow_pos _)
    exact ⟨⟨roundHalfEven_le_of_le hstep upper, .inr (le_roundHalfEven_of_le hstep lower)⟩,
      .inr lower⟩

/-- The significand and the spacing that rounding finds for `n / d` units. -/
structure RoundsTo (n d s m : ℕ) : Prop where
  word : wordOf n d = s * 2 ^ 52 + m
  fitting : Fitting s m
  /-- Rounding moves by at most half a step. -/
  near : |(m * 2 ^ s : ℚ) - n / d| ≤ 2 ^ s / 2
  /-- It moves by half a step only to an even significand. -/
  even : |(m * 2 ^ s : ℚ) - n / d| = 2 ^ s / 2 → m % 2 = 0
  /-- The spacing is that of the quotient's binade. -/
  binade : s = 0 ∨ (2 ^ 52 * 2 ^ s : ℚ) ≤ n / d

theorem exists_roundsTo (n : ℕ) (hd : 0 < d) : ∃ s m, RoundsTo n d s m := by
  obtain ⟨s, m, hword, hm, hfits, hlead⟩ := exists_wordOf n hd
  have hstep : 0 < d * 2 ^ s := Nat.mul_pos hd (Nat.two_pow_pos s)
  have hdq : (0 : ℚ) < d := by exact_mod_cast hd
  have hn : (n : ℚ) = d * (n / d) := (mul_div_cancel₀ _ hdq.ne').symm
  have upper : 2 * (m * 2 ^ s : ℚ) ≤ 2 * (n / d) + 2 ^ s := by
    have bound : 2 * (m * (d * 2 ^ s)) ≤ (2 * n + d * 2 ^ s : ℚ) := by
      exact_mod_cast hm ▸ roundHalfEven_le n (d * 2 ^ s)
    apply le_of_mul_le_mul_left _ hdq
    linarith
  have lower : 2 * (n / d : ℚ) ≤ 2 * (m * 2 ^ s) + 2 ^ s := by
    have bound : 2 * n ≤ (2 * (m * (d * 2 ^ s)) + d * 2 ^ s : ℚ) := by
      exact_mod_cast hm ▸ le_roundHalfEven n hstep
    apply le_of_mul_le_mul_left _ hdq
    linarith
  refine ⟨s, m, hword, hfits, ?_, ?_, ?_⟩
  · rw [abs_le]
    constructor <;> linarith
  · intro hhalf
    rw [hm]
    apply even_roundHalfEven hstep
    rw [← hm]
    rcases (abs_eq (by positivity)).mp hhalf with h | h
    · left
      have : 2 * (m * (d * 2 ^ s)) = (2 * n + d * 2 ^ s : ℚ) := by
        linear_combination 2 * (d : ℚ) * h - 2 * hn
      exact_mod_cast this
    · right
      have : 2 * n = (2 * (m * (d * 2 ^ s)) + d * 2 ^ s : ℚ) := by
        linear_combination 2 * hn - 2 * (d : ℚ) * h
      exact_mod_cast this
  · refine hlead.imp_right fun hle => ?_
    have bound : 2 ^ 52 * (d * 2 ^ s) ≤ (n : ℚ) := by exact_mod_cast hle
    apply le_of_mul_le_mul_left _ hdq
    linarith

variable {s m w : ℕ}

theorem RoundsTo.units_word (h : RoundsTo n d s m) : (units (wordOf n d) : ℚ) = m * 2 ^ s := by
  rw [h.word, units_eq h.fitting]
  push_cast
  rfl

/-- A greater word is at least half a step away. -/
theorem RoundsTo.half_le_of_lt (h : RoundsTo n d s m) (hlt : wordOf n d < w) :
    (2 ^ s / 2 : ℚ) ≤ |(units w : ℚ) - n / d| := by
  have hnext : (m * 2 ^ s + 2 ^ s : ℚ) ≤ units w := by
    have : m * 2 ^ s + 2 ^ s ≤ units w := by
      apply (units_add_le h.fitting).trans
      apply strictMono_units.monotone
      rw [← h.word]
      exact hlt
    exact_mod_cast this
  obtain ⟨low, -⟩ := abs_le.mp h.near
  rw [le_abs]
  left
  linarith

/-- A lesser word is at least half a step away, except below the least word of a binade, where the
grid is finer; but there the quotient is on the other side. -/
theorem RoundsTo.lt_or_half_le_of_lt (h : RoundsTo n d s m) (hlt : w < wordOf n d) :
    |(m * 2 ^ s : ℚ) - n / d| < |(units w : ℚ) - n / d| ∨
      (2 ^ s / 2 : ℚ) ≤ |(units w : ℚ) - n / d| := by
  have hword := h.word
  by_cases hfirst : s = 0 ∨ 2 ^ 52 < m
  · right
    have hprev : Fitting s (m - 1) := ⟨by have := h.fitting.le; omega, by omega⟩
    have hle : units w ≤ (m - 1) * 2 ^ s := by
      rw [← units_eq hprev]
      apply strictMono_units.monotone
      omega
    have step : (units w + 2 ^ s : ℚ) ≤ m * 2 ^ s := by
      have : units w + 2 ^ s ≤ (m - 1 + 1) * 2 ^ s := by
        rw [Nat.add_mul, Nat.one_mul]
        omega
      rw [show m - 1 + 1 = m by omega] at this
      exact_mod_cast this
    obtain ⟨-, high⟩ := abs_le.mp h.near
    rw [le_abs]
    right
    linarith
  · left
    have hleast : m = 2 ^ 52 := by
      have := h.fitting.leading
      omega
    have hbinade : (m * 2 ^ s : ℚ) ≤ n / d := by
      rw [hleast]
      exact_mod_cast h.binade.resolve_left (by omega)
    have below : (units w : ℚ) < m * 2 ^ s := by
      rw [← h.units_word]
      exact_mod_cast strictMono_units hlt
    rw [abs_sub_comm, abs_of_nonneg (by linarith), lt_abs]
    right
    linarith

/-- **The nearest word.** Any other word is farther from the quotient, or as far and then the one
found is even. -/
theorem lt_or_even (n : ℕ) (hd : 0 < d) (hne : w ≠ wordOf n d) :
    |(units (wordOf n d) : ℚ) - n / d| < |(units w : ℚ) - n / d| ∨
      |(units (wordOf n d) : ℚ) - n / d| = |(units w : ℚ) - n / d| ∧ wordOf n d % 2 = 0 := by
  obtain ⟨s, m, h⟩ := exists_roundsTo n hd
  have parity : wordOf n d % 2 = m % 2 := by
    have := h.word
    omega
  have far : |(m * 2 ^ s : ℚ) - n / d| < |(units w : ℚ) - n / d| ∨
      (2 ^ s / 2 : ℚ) ≤ |(units w : ℚ) - n / d| := by
    rcases Nat.lt_or_gt_of_ne hne with hlt | hgt
    · exact h.lt_or_half_le_of_lt hlt
    · exact .inr (h.half_le_of_lt hgt)
  rw [parity, h.units_word]
  rcases far with hlt | hfar
  · exact .inl hlt
  · rcases (h.near.trans hfar).lt_or_eq with hlt | heq
    · exact .inl hlt
    · exact .inr ⟨heq, h.even (le_antisymm h.near (heq ▸ hfar))⟩

/-- A word below zero is no nearer than zero is. -/
theorem neg_lt_or_even (n : ℕ) (hd : 0 < d) (hne : -(units w : ℚ) ≠ units (wordOf n d)) :
    |(units (wordOf n d) : ℚ) - n / d| < |-(units w : ℚ) - n / d| ∨
      |(units (wordOf n d) : ℚ) - n / d| = |-(units w : ℚ) - n / d| ∧ wordOf n d % 2 = 0 := by
  have hratio : (0 : ℚ) ≤ n / d := by positivity
  have hunits : (0 : ℚ) ≤ units w := Nat.cast_nonneg _
  have below : |-(units w : ℚ) - n / d| = units w + n / d := by
    rw [abs_of_nonpos (by linarith)]
    ring
  have origin : |(units 0 : ℚ) - n / d| = n / d := by
    rw [units_zero, Nat.cast_zero, zero_sub, abs_neg, abs_of_nonneg hratio]
  rw [below]
  by_cases hword : wordOf n d = 0
  · left
    rw [hword, units_zero, Nat.cast_zero, neg_ne_zero] at hne
    rw [hword, origin]
    have := hunits.lt_of_ne hne.symm
    linarith
  · -- zero is another word than the one found
    rcases lt_or_even n hd (Ne.symm hword) with hlt | ⟨heq, heven⟩
    · left
      linarith
    · rcases hunits.lt_or_eq with hpos | hzero
      · left
        linarith
      · right
        exact ⟨by linarith, heven⟩

theorem abs_units_wordOf_le (n : ℕ) (hd : 0 < d) (w : ℕ) :
    |(units (wordOf n d) : ℚ) - n / d| ≤ |(units w : ℚ) - n / d| := by
  by_cases hne : w = wordOf n d
  · rw [hne]
  · rcases lt_or_even n hd hne with hlt | ⟨heq, -⟩
    · exact hlt.le
    · exact heq.le

/-- **What is rounded to infinity**: all that is not nearer to the greatest finite number than to
where the next one would be. The greatest one is odd, so halfway is infinite. -/
theorem infinity_le_wordOf_iff (n : ℕ) (hd : 0 < d) :
    infinity ≤ wordOf n d ↔ (2 ^ 54 - 1 : ℚ) * 2 ^ 2044 ≤ n / d := by
  have top : (units infinity : ℚ) = 2 ^ 54 * 2 ^ 2044 := by
    rw [units_infinity, Nat.cast_mul, Nat.cast_pow, Nat.cast_pow, Nat.cast_ofNat]
  have greatest : (units (infinity - 1) : ℚ) = (2 ^ 54 - 2) * 2 ^ 2044 := by
    rw [units_greatest, Nat.cast_mul, Nat.cast_pow, Nat.cast_ofNat]
    norm_num only
  have hstep : (0 : ℚ) < 2 ^ 2044 := by positivity
  generalize (2 ^ 2044 : ℚ) = step at top greatest hstep ⊢
  constructor
  · -- below halfway, the greatest finite number is nearer than infinity
    intro hle
    have hunits : (units infinity : ℚ) ≤ units (wordOf n d) := by
      exact_mod_cast strictMono_units.monotone hle
    have hnear := abs_units_wordOf_le n hd (infinity - 1)
    by_contra hlow
    rw [greatest, abs_of_nonneg (by linarith), le_abs] at hnear
    rcases hnear with h | h <;> linarith
  · -- from halfway on, infinity is as near as the greatest finite number, or nearer
    intro hge
    by_contra hlt
    have hprev : wordOf n d ≤ infinity - 1 := by omega
    have hunits : (units (wordOf n d) : ℚ) ≤ units (infinity - 1) := by
      exact_mod_cast strictMono_units.monotone hprev
    have hfar := lt_or_even n hd (w := infinity) (by omega)
    rw [abs_sub_comm, abs_of_nonneg (by linarith), top] at hfar
    rcases hfar with h | ⟨h, heven⟩
    · rw [lt_abs] at h
      rcases h with h | h <;> linarith
    · -- only the greatest finite number is as near, and it is odd
      have hlast : infinity - 1 ≤ wordOf n d := by
        apply strictMono_units.le_iff_le.mp
        have : (units (infinity - 1) : ℚ) ≤ units (wordOf n d) := by
          rcases (abs_eq (by linarith)).mp h.symm with h | h <;> linarith
        exact_mod_cast this
      have : infinity - 1 = 2045 * 2 ^ 52 + (2 ^ 53 - 1) := rfl
      omega

end Word

/-! ## Ratios -/

section Ratio

variable {n d : ℕ}

theorem toNat_ofRatio (n d : ℕ) :
    (ofRatio n d).bits.toNat = min (wordOf (n * 2 ^ 1074) d) infinity := by
  have hle : min (wordOf (n * 2 ^ 1074) d) infinity ≤ 2047 * 2 ^ 52 := Nat.min_le_right _ _
  simp only [ofRatio, twoPow_eq]
  rw [← wordOf, Nat.toUInt64_eq, UInt64.toNat_ofNat', Nat.mod_eq_of_lt]
  omega

theorem toNat_ofRatio_le (n d : ℕ) : (ofRatio n d).bits.toNat ≤ 2047 * 2 ^ 52 := by
  rw [toNat_ofRatio]
  exact Nat.min_le_right _ _

/-- Ratios have no sign. -/
@[simp] theorem isNegative_ofRatio (n d : ℕ) : (ofRatio n d).isNegative = false := by
  have hle := toNat_ofRatio_le n d
  rw [isNegative, twoPow_eq, decide_eq_false_iff_not]
  omega

theorem magnitude_ofRatio (n d : ℕ) : (ofRatio n d).magnitude = (ofRatio n d).bits.toNat := by
  have hle := toNat_ofRatio_le n d
  rw [magnitude, twoPow_eq, Nat.mod_eq_of_lt]
  omega

/-- Ratios are numbers. -/
@[simp] theorem isNaN_ofRatio (n d : ℕ) : (ofRatio n d).isNaN = false := by
  rw [isNaN, magnitude_ofRatio, decide_eq_false_iff_not, Nat.not_lt]
  exact toNat_ofRatio_le n d

/-- The overflow threshold, in units. -/
theorem infinity_le_wordOf_scaled_iff (n : ℕ) (hd : 0 < d) :
    infinity ≤ wordOf (n * 2 ^ 1074) d ↔ (2 ^ 1024 - 2 ^ 970 : ℚ) ≤ n / d := by
  have scale : (2 ^ 54 - 1 : ℚ) * 2 ^ 2044 = (2 ^ 1024 - 2 ^ 970) * 2 ^ 1074 := by
    rw [sub_mul, sub_mul, one_mul, ← pow_add, ← pow_add, ← pow_add]
  rw [infinity_le_wordOf_iff _ hd, scale, Nat.cast_mul, Nat.cast_pow, Nat.cast_ofNat,
    mul_div_right_comm]
  exact mul_le_mul_iff_of_pos_right (by positivity)

theorem isInfinite_ofRatio_iff (n : ℕ) (hd : 0 < d) :
    (ofRatio n d).isInfinite = true ↔ (2 ^ 1024 - 2 ^ 970 : ℚ) ≤ n / d := by
  rw [isInfinite, magnitude_ofRatio, toNat_ofRatio, decide_eq_true_iff, min_eq_right_iff,
    infinity_le_wordOf_scaled_iff n hd]

theorem isFinite_ofRatio_iff (n : ℕ) (hd : 0 < d) :
    (ofRatio n d).isFinite = true ↔ n / d < (2 ^ 1024 - 2 ^ 970 : ℚ) := by
  rw [isFinite, magnitude_ofRatio, toNat_ofRatio, decide_eq_true_iff, ← not_le, ← not_le,
    ← infinity_le_wordOf_scaled_iff n hd]
  omega

theorem value_mul (x : Binary64) :
    x.value * 2 ^ 1074 = (if x.isNegative then -1 else 1) * units x.magnitude := by
  rw [value_eq, mul_assoc, div_mul_cancel₀ _ (by positivity)]

/-- **The nearest number.** Any other number is farther from the ratio, or as far and then the one
found is even. -/
theorem ofRatio_lt_or_even (hd : 0 < d) (hfinite : (ofRatio n d).isFinite = true) {y : Binary64}
    (hne : y.value ≠ (ofRatio n d).value) :
    |(ofRatio n d).value - n / d| < |y.value - n / d| ∨
      |(ofRatio n d).value - n / d| = |y.value - n / d| ∧ (ofRatio n d).bits.toNat % 2 = 0 := by
  have hword : (ofRatio n d).bits.toNat = wordOf (n * 2 ^ 1074) d := by
    rw [isFinite, magnitude_ofRatio, toNat_ofRatio, decide_eq_true_iff] at hfinite
    rw [toNat_ofRatio]
    omega
  have hunits : ((n * 2 ^ 1074 : ℕ) : ℚ) / d = n / d * 2 ^ 1074 := by
    rw [Nat.cast_mul, Nat.cast_pow, Nat.cast_ofNat, mul_div_right_comm]
  have hscale : (0 : ℚ) < 2 ^ 1074 := by positivity
  have scaled (a b : ℚ) : |a - b| = |a * 2 ^ 1074 - b * 2 ^ 1074| / 2 ^ 1074 := by
    rw [← sub_mul, abs_mul, abs_of_pos hscale, mul_div_cancel_right₀ _ hscale.ne']
  have hx := value_mul (ofRatio n d)
  have hy := value_mul y
  rw [isNegative_ofRatio, magnitude_ofRatio, hword, if_neg Bool.false_ne_true, one_mul] at hx
  have hne' : y.value * 2 ^ 1074 ≠ (ofRatio n d).value * 2 ^ 1074 :=
    fun h => hne (mul_right_cancel₀ hscale.ne' h)
  rw [scaled, scaled y.value, div_lt_div_iff_of_pos_right hscale, div_left_inj' hscale.ne', hword]
  rw [hx, ← hunits]
  rw [hx] at hne'
  cases hsign : y.isNegative with
  | false =>
    rw [hsign, if_neg Bool.false_ne_true, one_mul] at hy
    rw [hy] at hne' ⊢
    apply lt_or_even _ hd
    intro h
    exact hne' (congrArg (fun w => (units w : ℚ)) h)
  | true =>
    rw [hsign, if_pos rfl, neg_one_mul] at hy
    rw [hy] at hne' ⊢
    exact neg_lt_or_even _ hd hne'

/-- **Correct rounding.** -/
theorem nearest_ofRatio (hd : 0 < d) (hfinite : (ofRatio n d).isFinite = true) :
    Nearest (n / d) (ofRatio n d) where
  le y _ := by
    by_cases hne : y.value = (ofRatio n d).value
    · rw [hne]
    · rcases ofRatio_lt_or_even hd hfinite hne with hlt | ⟨heq, -⟩
      · exact hlt.le
      · exact heq.le
  even y _ hne htie := by
    rcases ofRatio_lt_or_even hd hfinite hne with hlt | ⟨-, heven⟩
    · exact absurd htie hlt.ne'
    · exact heven

end Ratio

end Binary64

end LoxLexer
