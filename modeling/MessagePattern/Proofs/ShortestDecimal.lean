import Mathlib.Data.Rat.Floor
import Mathlib.Tactic.FieldSimp
import Mathlib.Tactic.LinearCombination
import Mathlib.Tactic.NormNum.Prime
import MessagePattern.Proofs.DecimalValue
import MessagePattern.Proofs.Rounding

/-!
# Shortest decimals are shortest

The search for the shortest decimal goes through ever finer grids around the number, and looks only at the
two points next to the number on each. That is enough, for what is read as the number is an interval: if a
farther point of the grid is in it, so is the nearer one on the same side. A decimal that is read as the
number and has few digits is on a coarse grid, unless it lies below the power of ten below the number; then
that power is nearer, and has one digit only. With seventeen digits the grid is finer than the interval is
wide.

## Results

* `Decimal.magnitude_spec` — where the point of a quotient is.
* `Decimal.nearest?_spec` — what one grid gives.
* `Decimal.exists_reads_seventeen` — seventeen digits are enough.
* `Decimal.isShortest_shortest` — the search gives a shortest decimal that is read as the number.
* `Decimal.IsShortest.eq_shortest` — there is no other.
-/

namespace MessagePattern

namespace Decimal

/-- The decimal that stands for a floating point number: it is read as that number, none with fewer digits
is, of those with as many digits none is nearer to the number, and if another one is as near, the last digit
is even. -/
structure IsShortest (d : Decimal) (b : Binary64) : Prop where
  normal : d.Normal
  isNearest : b.IsNearest d.value
  length_le : ∀ d' : Decimal, d'.Normal → b.IsNearest d'.value → d.digits.length ≤ d'.digits.length
  closest : ∀ d' : Decimal, d'.Normal → b.IsNearest d'.value → d'.digits.length = d.digits.length →
    |d.value - b.value| ≤ |d'.value - b.value| ∧
    (|d.value - b.value| = |d'.value - b.value| → d' = d ∨ Even d.coefficient)

/-! ## Quotients of natural numbers -/

/-- A power with a negative exponent is cleared by the factor that the search multiplies by instead. -/
theorem zpow_mul_pow_toNat {a : ℚ} (ha : a ≠ 0) (e : ℤ) : a ^ e * a ^ (-e).toNat = a ^ e.toNat := by
  rw [← zpow_natCast, ← zpow_natCast, ← zpow_add₀ ha]
  congr 1
  omega

variable {b : Binary64}

theorem ofBinary_den_pos (b : Binary64) : 0 < (Rounding.ofBinary b).den := Nat.pow_pos (by decide)

/-- What a unit in the last place is, counted in quarters. -/
theorem four_mul_scale (q : ℤ) : (4 : ℚ) * 2 ^ (q - 2).toNat = 2 ^ q * 2 ^ (2 - q).toNat := by
  have hScale := zpow_mul_pow_toNat (a := 2) (by norm_num) (q - 2)
  rw [neg_sub] at hScale
  have hQuarters : (2 : ℚ) ^ q = 4 * 2 ^ (q - 2) := by
    rw [two_zpow_eq q, two_zpow_eq (q - 1), show q - 1 - 1 = q - 2 by ring]
    ring
  rw [hQuarters, ← hScale]
  ring

/-- The middle of the interval is the number. -/
theorem ofBinary_mid (b : Binary64) :
    ((Rounding.ofBinary b).mid : ℚ) = b.value * (Rounding.ofBinary b).den := by
  simp only [Rounding.ofBinary, Nat.pow_eq, Binary64.value]
  push_cast
  linear_combination (b.significand : ℚ) * four_mul_scale b.exponent

/-- The low end of the interval is half way to the number before. -/
theorem ofBinary_low (hb : b.WellFormed) :
    ((Rounding.ofBinary b).low : ℚ) = (b.below + b.value) / 2 * (Rounding.ofBinary b).den := by
  have hPos := hb.pos
  rw [b.below_eq]
  simp only [Rounding.ofBinary, Nat.pow_eq, Binary64.value]
  split
  · push_cast [show 1 ≤ 4 * b.significand by omega]
    linear_combination ((b.significand : ℚ) - 1 / 4) * four_mul_scale b.exponent
  · push_cast [show 2 ≤ 4 * b.significand by omega]
    linear_combination ((b.significand : ℚ) - 1 / 2) * four_mul_scale b.exponent

/-- The high end of the interval is half way to the next number. -/
theorem ofBinary_high (b : Binary64) :
    ((Rounding.ofBinary b).high : ℚ) = (b.value + b.above) / 2 * (Rounding.ofBinary b).den := by
  rw [b.above_eq]
  simp only [Rounding.ofBinary, Nat.pow_eq, Binary64.value]
  push_cast
  linear_combination ((b.significand : ℚ) + 1 / 2) * four_mul_scale b.exponent

/-- The search's test is whether a decimal is read as the number. -/
theorem holds_iff (hb : b.WellFormed) (n : ℕ) (e : ℤ) :
    (Rounding.ofBinary b).holds n e = true ↔ b.Reads (n * 10 ^ e) := by
  set r := Rounding.ofBinary b
  -- The search compares natural numbers: both sides times the denominator and the power of ten that a
  -- negative exponent asks for.
  have hDen : (0 : ℚ) < r.den := by exact_mod_cast ofBinary_den_pos b
  have hUnit : (0 : ℚ) < 10 ^ (-e).toNat := by positivity
  have hPoint : ((n * 10 ^ e.toNat * r.den : ℕ) : ℚ) = n * 10 ^ e * (r.den * 10 ^ (-e).toNat) := by
    push_cast
    rw [← zpow_mul_pow_toNat (by norm_num) e]
    ring
  have hLow : ((r.low * 10 ^ (-e).toNat : ℕ) : ℚ) =
      (b.below + b.value) / 2 * (r.den * 10 ^ (-e).toNat) := by
    push_cast
    rw [ofBinary_low hb]
    ring
  have hHigh : ((r.high * 10 ^ (-e).toNat : ℕ) : ℚ) =
      (b.value + b.above) / 2 * (r.den * 10 ^ (-e).toNat) := by
    push_cast
    rw [ofBinary_high b]
    ring
  have hFactor := mul_pos hDen hUnit
  have hClosed : r.closed = true ↔ Even b.significand := beq_iff_eq.trans Nat.even_iff.symm
  simp only [Rounding.holds, Nat.pow_eq, Binary64.Reads, hClosed]
  -- the ends belong to the interval exactly for an even significand
  split
  · rw [Bool.and_eq_true, decide_eq_true_eq, decide_eq_true_eq,
      ← Nat.cast_le (α := ℚ), ← Nat.cast_le (α := ℚ), hPoint, hLow, hHigh,
      mul_le_mul_iff_of_pos_right hFactor, mul_le_mul_iff_of_pos_right hFactor]
  · rw [Bool.and_eq_true, decide_eq_true_eq, decide_eq_true_eq,
      ← Nat.cast_lt (α := ℚ), ← Nat.cast_lt (α := ℚ), hPoint, hLow, hHigh,
      mul_lt_mul_iff_of_pos_right hFactor, mul_lt_mul_iff_of_pos_right hFactor]

/-! ## Magnitude -/

/-- The number of digits of a numeral bounds the number by powers of ten on both sides. -/
theorem length_toDigits {n : ℕ} (hn : n ≠ 0) :
    (10 : ℚ) ^ ((Nat.toDigits 10 n).length - 1 : ℤ) ≤ n ∧
      (n : ℚ) < 10 ^ ((Nat.toDigits 10 n).length : ℤ) := by
  have hLength : (Nat.toDigits 10 n).length = (Nat.digits 10 n).length := by
    rw [toDigits_eq hn, List.length_map, List.length_reverse]
  have hPos : 0 < (Nat.digits 10 n).length :=
    List.length_pos_iff.mpr (Nat.digits_ne_nil_iff_ne_zero.mpr hn)
  rw [hLength]
  constructor
  · have hLe : 10 ^ ((Nat.digits 10 n).length - 1) ≤ n := by
      rw [← Nat.lt_digits_length_iff (by decide)]
      omega
    rw [show ((Nat.digits 10 n).length - 1 : ℤ) = ((Nat.digits 10 n).length - 1 : ℕ) by omega,
      zpow_natCast]
    exact_mod_cast hLe
  · rw [zpow_natCast]
    exact_mod_cast Nat.lt_base_pow_length_digits (by decide)

/-- The first digit of a quotient stands right after its magnitude's power of ten. -/
theorem magnitude_spec {num den : ℕ} (hNum : num ≠ 0) (hDen : den ≠ 0) :
    (10 : ℚ) ^ (magnitude num den - 1) * den ≤ num ∧ (num : ℚ) < 10 ^ magnitude num den * den := by
  obtain ⟨hNumLe, hNumLt⟩ := length_toDigits hNum
  obtain ⟨hDenLe, hDenLt⟩ := length_toDigits hDen
  -- The lengths of both numerals bound the quotient by powers of ten around the estimate; the test tells on
  -- which side of the estimate it is.
  set estimate : ℤ := ((Nat.toDigits 10 num).length : ℤ) - (Nat.toDigits 10 den).length with hEstimate
  -- the test compares the same two numbers, both scaled to natural ones
  have hTest : num * Nat.pow 10 (-estimate).toNat < den * Nat.pow 10 estimate.toNat ↔
      (num : ℚ) < 10 ^ estimate * den := by
    have hUnit : (0 : ℚ) < 10 ^ (-estimate).toNat := by positivity
    rw [← Nat.cast_lt (α := ℚ)]
    push_cast [Nat.pow_eq]
    rw [← zpow_mul_pow_toNat (by norm_num) estimate, ← mul_assoc, mul_comm (den : ℚ),
      mul_lt_mul_iff_of_pos_right hUnit]
  have hMagnitude : magnitude num den =
      if (num : ℚ) < 10 ^ estimate * den then estimate else estimate + 1 := by
    rw [magnitude]
    exact if_congr hTest rfl rfl
  rw [hMagnitude]
  split
  case isTrue hLess =>
    refine ⟨?_, hLess⟩
    calc (10 : ℚ) ^ (estimate - 1) * den
        ≤ 10 ^ (estimate - 1) * 10 ^ ((Nat.toDigits 10 den).length : ℤ) :=
          mul_le_mul_of_nonneg_left hDenLt.le (by positivity)
      _ = 10 ^ ((Nat.toDigits 10 num).length - 1 : ℤ) := by
          rw [← zpow_add₀ (by norm_num)]
          congr 1
          omega
      _ ≤ num := hNumLe
  case isFalse hMore =>
    refine ⟨by rw [add_sub_cancel_right]; exact not_lt.mp hMore, ?_⟩
    calc (num : ℚ) < 10 ^ ((Nat.toDigits 10 num).length : ℤ) := hNumLt
      _ = 10 ^ (estimate + 1) * 10 ^ ((Nat.toDigits 10 den).length - 1 : ℤ) := by
          rw [← zpow_add₀ (by norm_num)]
          congr 1
          omega
      _ ≤ 10 ^ (estimate + 1) * den := mul_le_mul_of_nonneg_left hDenLe (by positivity)

/-! ## One grid -/

/-- Different points of a grid are at least a step apart. -/
theorem one_le_abs_add_abs {t : ℚ} {n k : ℕ} (h : k ≠ n) : 1 ≤ |(k : ℚ) - t| + |(n : ℚ) - t| := by
  have hStep : (1 : ℚ) ≤ |(k : ℚ) - n| := by
    exact_mod_cast Int.one_le_abs (show (k : ℤ) - n ≠ 0 by omega)
  calc (1 : ℚ) ≤ |(k : ℚ) - n| := hStep
    _ ≤ |(k : ℚ) - t| + |t - n| := abs_sub_le _ _ _
    _ = |(k : ℚ) - t| + |(n : ℚ) - t| := by rw [abs_sub_comm t]

/-- Where a quotient is between two natural numbers is told from twice the remainder. -/
theorem quotient_between {num den : ℕ} {t : ℚ} (hDen : 0 < den) (h : (num : ℚ) = t * den) :
    ((num / den : ℕ) : ℚ) ≤ t ∧ t < (num / den : ℕ) + 1 ∧
      (t < (num / den : ℕ) + 1 / 2 ↔ 2 * (num % den) < den) ∧
      (t = (num / den : ℕ) + 1 / 2 ↔ 2 * (num % den) = den) := by
  have hPos : (0 : ℚ) < den := by exact_mod_cast hDen
  have hLess : ((num % den : ℕ) : ℚ) < den := by exact_mod_cast Nat.mod_lt _ hDen
  have hRest : ((num % den : ℕ) : ℚ) = (t - (num / den : ℕ)) * den := by
    have hSplit : (num : ℚ) = (num / den : ℕ) * den + (num % den : ℕ) := by
      exact_mod_cast (Nat.div_add_mod' num den).symm
    linarith
  have hTwice : ((2 * (num % den) : ℕ) : ℚ) = 2 * (t - (num / den : ℕ)) * den := by
    push_cast
    rw [hRest]
    ring
  -- the quotient is below, the next number above, and the remainder tells on which side of the half it is
  refine ⟨?_, ?_, ?_, ?_⟩
  · have : 0 ≤ (t - (num / den : ℕ)) * den := by rw [← hRest]; positivity
    linarith [nonneg_of_mul_nonneg_left this hPos]
  · rw [hRest, mul_lt_iff_lt_one_left hPos] at hLess
    linarith
  · rw [← Nat.cast_lt (α := ℚ), hTwice, mul_lt_iff_lt_one_left hPos]
    constructor <;> intro <;> linarith
  · rw [← Nat.cast_inj (R := ℚ), hTwice, mul_eq_right₀ hPos.ne']
    constructor <;> intro <;> linarith

/-- The two points that are looked at on a grid: the numbers on both sides, the nearer one first. -/
theorem nearest?_eq (b : Binary64) (e : ℤ) :
    ∃ first second : ℕ,
      (Rounding.ofBinary b).nearest? e =
        (if (Rounding.ofBinary b).holds first e then some (ofScaled first e)
        else if (Rounding.ofBinary b).holds second e then some (ofScaled second e)
        else none) ∧
      (|(first : ℚ) - b.value / 10 ^ e| ≤ 1 / 2 ∧
        (|(first : ℚ) - b.value / 10 ^ e| = 1 / 2 → Even first)) ∧
      (second = first + 1 ∧ (first : ℚ) ≤ b.value / 10 ^ e ∧ b.value / 10 ^ e < second ∨
        first = second + 1 ∧ (second : ℚ) ≤ b.value / 10 ^ e ∧ b.value / 10 ^ e < first) := by
  have hMid := ofBinary_mid b
  have hDen := ofBinary_den_pos b
  simp only [Rounding.nearest?, Nat.pow_eq]
  set r := Rounding.ofBinary b
  set t := b.value / 10 ^ e with ht
  -- the quotient that is rounded is the number in steps of the grid
  have hQuotient : ((r.mid * 10 ^ (-e).toNat : ℕ) : ℚ) = t * (r.den * 10 ^ e.toNat : ℕ) := by
    have hPower : (10 : ℚ) ^ e ≠ 0 := by positivity
    rw [ht]
    push_cast
    rw [hMid, ← zpow_mul_pow_toNat (by norm_num) e]
    field_simp
  -- From here on only the quotient matters, and not how it was scaled.
  generalize r.mid * 10 ^ (-e).toNat = num at hQuotient ⊢
  have hPos : 0 < r.den * 10 ^ e.toNat := Nat.mul_pos hDen (Nat.pow_pos (by decide))
  generalize r.den * 10 ^ e.toNat = den at hQuotient hPos ⊢
  obtain ⟨hBelow, hAbove, hLower, hTie⟩ := quotient_between hPos hQuotient
  -- the quotient is rounded up beyond the half, and at the half if it is odd
  by_cases hUp : (decide (den < 2 * (num % den)) ||
      (2 * (num % den) == den && num / den % 2 == 1)) = true
  · refine ⟨num / den + 1, num / den, by simp only [hUp, ↓reduceIte], ?_,
      .inr ⟨rfl, hBelow, by push_cast; exact hAbove⟩⟩
    simp only [Bool.or_eq_true, decide_eq_true_eq, Bool.and_eq_true, beq_iff_eq] at hUp
    have hUpper : ¬ t < (num / den : ℕ) + 1 / 2 := fun h => by have := hLower.mp h; omega
    push_cast
    rw [abs_of_pos (by linarith)]
    refine ⟨by linarith, fun hHalf => ?_⟩
    have := hTie.mp (by linarith)
    exact Nat.even_iff.mpr (by omega)
  · refine ⟨num / den, num / den + 1, by simp only [hUp, Bool.false_eq_true, ↓reduceIte], ?_,
      .inl ⟨rfl, hBelow, by push_cast; exact hAbove⟩⟩
    simp only [Bool.or_eq_true, decide_eq_true_eq, Bool.and_eq_true, beq_iff_eq] at hUp
    have hLeHalf : t ≤ (num / den : ℕ) + 1 / 2 := by
      by_contra! hMore
      have hNotLess : ¬ 2 * (num % den) < den := fun h => lt_asymm hMore (hLower.mpr h)
      have hNotTie : ¬ 2 * (num % den) = den := fun h => hMore.ne' (hTie.mpr h)
      omega
    rw [abs_of_nonpos (by linarith)]
    refine ⟨by linarith, fun hHalf => ?_⟩
    have := hTie.mp (by linarith)
    exact Nat.even_iff.mpr (by omega)

/-- A point of a grid that is read as the number, such that no other one is nearer, nor as near unless it is
odd and the point is even. -/
structure Closest (b : Binary64) (e : ℤ) (n : ℕ) : Prop where
  reads : b.Reads (n * 10 ^ e)
  le : ∀ k : ℕ, b.Reads (k * 10 ^ e) → |n - b.value / 10 ^ e| ≤ |k - b.value / 10 ^ e|
  tie : ∀ k : ℕ, b.Reads (k * 10 ^ e) → |(n : ℚ) - b.value / 10 ^ e| = |k - b.value / 10 ^ e| →
    k = n ∨ Even n ∧ ¬ Even k
  le_succ : (n : ℚ) ≤ b.value / 10 ^ e + 1

/-- A point within half a step of the number is closest, if it is even in the middle. -/
theorem closest_of_le_half {e : ℤ} {n : ℕ} (hReads : b.Reads (n * 10 ^ e))
    (hHalf : |(n : ℚ) - b.value / 10 ^ e| ≤ 1 / 2)
    (hEven : |(n : ℚ) - b.value / 10 ^ e| = 1 / 2 → Even n) : Closest b e n := by
  refine ⟨hReads, fun k _ => ?_, fun k _ hTie => ?_, ?_⟩
  · -- no other point is nearer, as two points are a step apart
    rcases eq_or_ne k n with rfl | hOther
    · exact le_rfl
    · linarith [one_le_abs_add_abs (t := b.value / 10 ^ e) hOther]
  · refine or_iff_not_imp_left.mpr fun hOther => ?_
    -- Another point as near is one step away, with the number in the middle; so it is odd.
    have hApart := one_le_abs_add_abs (t := b.value / 10 ^ e) hOther
    have hMiddle : |(n : ℚ) - b.value / 10 ^ e| = 1 / 2 := by linarith
    have hStep : |(k : ℚ) - n| ≤ 1 := by
      have := abs_sub_le (k : ℚ) (b.value / 10 ^ e) n
      rw [abs_sub_comm (b.value / 10 ^ e)] at this
      linarith
    have hStepInt : |(k : ℤ) - n| ≤ 1 := by exact_mod_cast hStep
    have hBounds := abs_le.mp hStepInt
    refine ⟨hEven hMiddle, ?_⟩
    have := Nat.even_iff.mp (hEven hMiddle)
    rw [Nat.even_iff]
    omega
  · linarith [le_abs_self ((n : ℚ) - b.value / 10 ^ e)]

section
variable {e : ℤ} {first second k : ℕ}
  (hSides : second = first + 1 ∧ (first : ℚ) ≤ b.value / 10 ^ e ∧ b.value / 10 ^ e < second ∨
    first = second + 1 ∧ (second : ℚ) ≤ b.value / 10 ^ e ∧ b.value / 10 ^ e < first)
  (hFirst : ¬ b.Reads (first * 10 ^ e)) (hk : b.Reads (k * 10 ^ e))
include hSides hFirst hk

/-- Where the point on one side of the number is not read as it, all that is read as it is on the other
side, and the point there comes first. -/
theorem second_first :
    b.Reads (second * 10 ^ e) ∧ |(second : ℚ) - b.value / 10 ^ e| ≤ |(k : ℚ) - b.value / 10 ^ e| ∧
      (|(second : ℚ) - b.value / 10 ^ e| = |(k : ℚ) - b.value / 10 ^ e| → k = second) := by
  have hUnit : (0 : ℚ) < 10 ^ e := by positivity
  -- the number itself is read as the number
  have hMid : b.Reads (b.value / 10 ^ e * 10 ^ e) := by
    rw [div_mul_cancel₀ _ hUnit.ne']
    exact b.reads_value
  have hScale : ∀ {x y : ℚ}, x ≤ y → x * 10 ^ e ≤ y * 10 ^ e := fun hLe =>
    mul_le_mul_of_nonneg_right hLe hUnit.le
  generalize b.value / 10 ^ e = t at hSides hMid ⊢
  rcases hSides with ⟨hNext, hBelow, hAbove⟩ | ⟨hNext, hBelow, hAbove⟩
  · -- A point at or below the first one would put that one into the interval.
    have hMore : second ≤ k := by
      by_contra! hLess
      have hCast : (k : ℚ) ≤ first := by exact_mod_cast (show k ≤ first by omega)
      exact hFirst (hk.convex hMid (hScale hCast) (hScale hBelow))
    have hCast : (second : ℚ) ≤ k := by exact_mod_cast hMore
    refine ⟨hMid.convex hk (hScale hAbove.le) (hScale hCast), ?_⟩
    rw [abs_of_pos (by linarith), abs_of_pos (by linarith)]
    exact ⟨by linarith, fun hEq => by exact_mod_cast (sub_left_inj.mp hEq).symm⟩
  · have hLess : k ≤ second := by
      by_contra! hMore
      have hCast : (first : ℚ) ≤ k := by exact_mod_cast (show first ≤ k by omega)
      exact hFirst (hMid.convex hk (hScale hAbove.le) (hScale hCast))
    have hCast : (k : ℚ) ≤ second := by exact_mod_cast hLess
    refine ⟨hk.convex hMid (hScale hCast) (hScale hBelow), ?_⟩
    rw [abs_of_nonpos (by linarith), abs_of_nonpos (by linarith)]
    exact ⟨by linarith, fun hEq => by exact_mod_cast (sub_left_inj.mp (neg_inj.mp hEq)).symm⟩

end

/-- A grid gives a closest point of it, or has no point that is read as the number. -/
theorem nearest?_spec (hb : b.WellFormed) (e : ℤ) :
    (∃ n, Closest b e n ∧ (Rounding.ofBinary b).nearest? e = some (ofScaled n e)) ∨
      (∀ k : ℕ, ¬ b.Reads (k * 10 ^ e)) ∧ (Rounding.ofBinary b).nearest? e = none := by
  obtain ⟨first, second, hSearch, ⟨hHalf, hEven⟩, hSides⟩ := nearest?_eq b e
  by_cases hFirst : (Rounding.ofBinary b).holds first e = true
  · exact .inl ⟨first, closest_of_le_half ((holds_iff hb _ _).mp hFirst) hHalf hEven,
      by rw [hSearch, if_pos hFirst]⟩
  · have hNotFirst : ¬ b.Reads (first * 10 ^ e) := fun hReads => hFirst ((holds_iff hb _ _).mpr hReads)
    -- neither the first point nor the second is read as the number, or one of them is found
    by_cases hHolds : (Rounding.ofBinary b).holds second e = true
    · have hClosest : Closest b e second := by
        refine ⟨(holds_iff hb _ _).mp hHolds, fun k hk => (second_first hSides hNotFirst hk).2.1,
          fun k hk hTie => .inl ((second_first hSides hNotFirst hk).2.2 hTie), ?_⟩
        rcases hSides with ⟨hNext, hBelow, -⟩ | ⟨-, hBelow, -⟩
        · rw [hNext]
          push_cast
          linarith
        · linarith
      exact .inl ⟨second, hClosest, by rw [hSearch, if_neg hFirst, if_pos hHolds]⟩
    · have hNone : ∀ k : ℕ, ¬ b.Reads (k * 10 ^ e) := fun k hk =>
        hHolds ((holds_iff hb _ _).mpr (second_first hSides hNotFirst hk).1)
      exact .inr ⟨hNone, by rw [hSearch, if_neg hFirst, if_neg hHolds]⟩

/-! ## Seventeen digits -/

/-- There is a point of a grid in an interval wider than its steps. -/
theorem exists_mul_between {low high unit : ℚ} (hUnit : 0 < unit) (hLow : 0 ≤ low)
    (hWide : low + unit < high) : ∃ n : ℕ, low < n * unit ∧ n * unit < high := by
  refine ⟨⌊low / unit⌋₊ + 1, ?_, ?_⟩
  · push_cast
    rw [← div_lt_iff₀ hUnit]
    exact Nat.lt_floor_add_one _
  · have hFloor : (⌊low / unit⌋₊ : ℚ) * unit ≤ low := by
      rw [← le_div_iff₀ hUnit]
      exact Nat.floor_le (by positivity)
    push_cast
    linarith

/-- With seventeen digits, the steps are less than what is read as the number is wide. -/
theorem exists_reads_seventeen (hb : b.WellFormed) {point : ℤ} (h : 10 ^ (point - 1) ≤ b.value) :
    ∃ n : ℕ, b.Reads (n * 10 ^ (point - 1 - 16)) := by
  have hUnit : (0 : ℚ) < 10 ^ (point - 1 - 16) := by positivity
  have hPlace : (0 : ℚ) < 2 ^ b.exponent := by positivity
  -- the step of the finest grid is less than the number by sixteen digits
  have hSmall : (10 : ℚ) ^ (point - 1 - 16) * 10 ^ 16 ≤ b.value := by
    rw [← zpow_natCast, ← zpow_add₀ (by norm_num)]
    exact_mod_cast (by simpa using h)
  have hSignificand : (b.significand : ℚ) < 2 ^ 53 := by exact_mod_cast hb.lt
  -- A unit in the last of 53 binary digits is wider than the step, even where the gap below is narrow.
  have hWide : (b.below + b.value) / 2 + 10 ^ (point - 1 - 16) < (b.value + b.above) / 2 := by
    rw [b.below_eq, b.above_eq]
    unfold Binary64.value at hSmall ⊢
    split
    case isTrue hNarrow =>
      rw [(hb.narrow.mp hNarrow).1] at hSmall
      push_cast at hSmall
      linarith
    case isFalse => nlinarith
  have hLow : 0 ≤ (b.below + b.value) / 2 := by
    linarith [Binary64.below_nonneg hb, Binary64.value_pos hb]
  obtain ⟨n, hAbove, hBelow⟩ := exists_mul_between hUnit hLow hWide
  exact ⟨n, Binary64.reads_of_lt hAbove hBelow⟩

/-! ## The search -/

/-- The first number of a range at which a function gives something. -/
theorem exists_of_findSome?_range {β : Type} {f : ℤ → Option β} {g : ℕ → ℤ} {bound : ℕ} {x : β}
    (h : ((List.range bound).map g).findSome? f = some x) :
    ∃ n < bound, f (g n) = some x ∧ ∀ j < n, f (g j) = none := by
  induction bound with
  | zero => simp at h
  | succ bound ih =>
    rw [List.range_succ, List.map_append, List.findSome?_append, Option.or_eq_some_iff] at h
    rcases h with hEarlier | ⟨hNone, hLast⟩
    · obtain ⟨n, hn, hFound, hBefore⟩ := ih hEarlier
      exact ⟨n, by omega, hFound, hBefore⟩
    · refine ⟨bound, by omega, by simpa using hLast, fun j hj => ?_⟩
      exact List.findSome?_eq_none_iff.mp hNone _ (List.mem_map_of_mem (List.mem_range.mpr hj))

/-- What the search stops at: a closest point of a grid, where no coarser grid has a point that is read as
the number. -/
structure Found (b : Binary64) (point : ℤ) (n k : ℕ) : Prop where
  le_value : 10 ^ (point - 1) ≤ b.value
  value_lt : b.value < 10 ^ point
  closest : Closest b (point - 1 - n) k
  coarser : ∀ j < n, ∀ i : ℕ, ¬ b.Reads (i * 10 ^ (point - 1 - j))

/-- The search stops at a closest point of the first grid that has one. -/
theorem exists_found (hb : b.WellFormed) :
    ∃ point n k, Found b point n k ∧ shortest b = ofScaled k (point - 1 - n) := by
  have hMid : (Rounding.ofBinary b).mid ≠ 0 := by
    have hPos := hb.pos
    have : 0 < (Rounding.ofBinary b).mid :=
      Nat.mul_pos (by omega) (Nat.pow_pos (by decide))
    omega
  have hDen : (0 : ℚ) < (Rounding.ofBinary b).den := by exact_mod_cast ofBinary_den_pos b
  obtain ⟨hLow, hHigh⟩ := magnitude_spec hMid (ofBinary_den_pos b).ne'
  set point := magnitude (Rounding.ofBinary b).mid (Rounding.ofBinary b).den with hPoint
  rw [ofBinary_mid] at hLow hHigh
  have hLe := le_of_mul_le_mul_right hLow hDen
  have hLt := lt_of_mul_lt_mul_right hHigh hDen.le
  -- Some grid gives a point: the last one does, if no other.
  have hSome : (((List.range 17).map fun n : ℕ => point - 1 - n).findSome?
      (Rounding.ofBinary b).nearest?).isSome := by
    rw [List.findSome?_isSome_iff]
    refine ⟨point - 1 - (16 : ℕ), List.mem_map_of_mem (by simp), ?_⟩
    obtain ⟨k, hk⟩ := exists_reads_seventeen hb hLe
    rcases nearest?_spec hb (point - 1 - (16 : ℕ)) with ⟨_, -, hFound⟩ | ⟨hNone, -⟩
    · rw [hFound]
      rfl
    · exact absurd hk (hNone k)
  obtain ⟨d, hSearch⟩ := Option.isSome_iff_exists.mp hSome
  -- The first grid that gives one is what is found, and all before it had none.
  obtain ⟨n, -, hHit, hBefore⟩ := exists_of_findSome?_range hSearch
  rcases nearest?_spec hb (point - 1 - n) with ⟨k, hClosest, hFound⟩ | ⟨-, hNone⟩
  · refine ⟨point, n, k, ⟨hLe, hLt, hClosest, fun j hj i => ?_⟩, ?_⟩
    · rcases nearest?_spec hb (point - 1 - j) with ⟨_, -, hEarlier⟩ | ⟨hNothing, -⟩
      · rw [hBefore j hj] at hEarlier
        cases hEarlier
      · exact hNothing i
    · rw [hFound] at hHit
      rw [shortest, ← hPoint]
      simp only [hSearch, Option.getD_some, Option.some.inj hHit]
  · rw [hNone] at hHit
    cases hHit

namespace Found

variable {point : ℤ} {n k : ℕ} {d : Decimal}

/-- A decimal that is read as the number is on the grid for its number of digits, unless it is below the
power of ten below the number. -/
theorem onGrid_or_below (h : Found b point n k) (hd : d.Normal) (hReads : b.Reads d.value) :
    (∃ i : ℕ, (Even d.coefficient → Even i) ∧ d.value = i * 10 ^ (point - d.digits.length)) ∨
      b.Reads ((1 : ℕ) * 10 ^ (point - 1)) ∧ d.value < 10 ^ (point - 1) := by
  rcases le_or_gt point d.point with hFar | hNear
  · refine .inl ⟨d.coefficient * 10 ^
      (d.point - d.digits.length - (point - d.digits.length)).toNat, fun hEven => hEven.mul_right _, ?_⟩
    exact scaled_eq 10 (by omega) _
  · -- With its first digit at a lower place, the decimal is below the power, and the power is between it
    -- and the number.
    have hBelow : d.value < 10 ^ (point - 1) :=
      hd.value_lt.trans_le (zpow_le_zpow_right₀ (by norm_num) (by omega))
    refine .inr ⟨?_, hBelow⟩
    rw [Nat.cast_one, one_mul]
    exact hReads.convex b.reads_value hBelow.le h.le_value

/-- No decimal that is read as the number has fewer digits than the search has tried. -/
theorem lt_length (h : Found b point n k) (hd : d.Normal) (hReads : b.Reads d.value) :
    n < d.digits.length := by
  have hPos := hd.length_pos
  by_contra! hFew
  rcases h.onGrid_or_below hd hReads with ⟨i, -, hGrid⟩ | ⟨hPower, -⟩
  · refine h.coarser (d.digits.length - 1) (by omega) i ?_
    rw [show point - 1 - (d.digits.length - 1 : ℕ) = point - d.digits.length by omega, ← hGrid]
    exact hReads
  · exact h.coarser 0 (by omega) 1 (by simpa using hPower)

/-- The point that is found is not zero, as zero is read as no other number. -/
theorem ne_zero (h : Found b point n k) (hb : b.WellFormed) : k ≠ 0 := by
  rintro rfl
  have := h.closest.reads.pos hb
  simp at this

/-- The point that is found is at most the power of ten above the number. -/
theorem le_pow (h : Found b point n k) : k ≤ 10 ^ (n + 1) := by
  have hUnit : (0 : ℚ) < 10 ^ (point - 1 - n) := by positivity
  have hSteps : b.value / 10 ^ (point - 1 - n) < 10 ^ (n + 1) := by
    rw [div_lt_iff₀ hUnit, ← zpow_natCast, ← zpow_add₀ (by norm_num),
      show ((n + 1 : ℕ) : ℤ) + (point - 1 - n) = point by push_cast; ring]
    exact h.value_lt
  have hLt : (k : ℚ) < 10 ^ (n + 1) + 1 := by linarith [h.closest.le_succ]
  exact Nat.lt_succ_iff.mp (by exact_mod_cast hLt)

/-- What the search gives has all the digits of its grid, unless it is a power of ten. -/
theorem coefficient_eq (h : Found b point n k) (hb : b.WellFormed) :
    (ofScaled k (point - 1 - n)).digits.length = n + 1 ∧
      ((ofScaled k (point - 1 - n)).coefficient = k ∨ n = 0 ∧ k = 10) := by
  obtain ⟨hNormal, zeros, hCoefficient, hLength, -⟩ := exists_ofScaled (h.ne_zero hb) (point - 1 - n)
  have hReads : b.Reads (ofScaled k (point - 1 - n)).value := by
    rw [value_ofScaled (h.ne_zero hb)]
    exact h.closest.reads
  have hMany := h.lt_length hNormal hReads
  rcases eq_or_lt_of_le h.le_pow with hPower | hLess
  · -- A power of ten has one digit.
    have hOne : (ofScaled k (point - 1 - n)) = ⟨[1], point + 1⟩ := by
      refine hNormal.eq_of_value_eq ⟨by simp, by simp, by simp, by simp⟩ ?_
      have hDigit : Nat.ofDigits 10 [1].reverse = 1 := rfl
      rw [value_ofScaled (h.ne_zero hb), hPower, value, coefficient, hDigit]
      push_cast
      rw [← zpow_natCast, ← zpow_add₀ (by norm_num), one_mul]
      congr 1
      push_cast [List.length_singleton]
      ring
    rw [hOne] at hMany ⊢
    have hn : n = 0 := by simpa using hMany
    exact ⟨by simp [hn], .inr ⟨hn, by rw [hPower, hn]; rfl⟩⟩
  · -- With fewer digits it would have been found before; so it has all, and no zeros were cut off.
    have hFew : (Nat.digits 10 k).length ≤ n + 1 := (Nat.digits_length_le_iff (by decide) k).mpr hLess
    have hNone : zeros = 0 := by omega
    refine ⟨by omega, .inl ?_⟩
    rw [hNone, pow_zero, mul_one] at hCoefficient
    exact hCoefficient.symm

end Found

/-- No number half way between nine and ten times a power of ten has gaps so wide that both are read as it. -/
theorem not_reads_nine (hb : b.WellFormed) {e : ℤ} (h : b.value = 19 / 2 * 10 ^ e) :
    ¬ b.Reads (9 * 10 ^ e) := by
  intro hReads
  have hUnit : (0 : ℚ) < 10 ^ e := by positivity
  have hPlace : (0 : ℚ) < 2 ^ b.exponent := by positivity
  -- nine is read as the number, so a step of the grid fits into a binary unit
  have hGap : (10 : ℚ) ^ e ≤ 2 ^ b.exponent := by
    have := hReads.le.1
    rw [b.below_eq] at this
    split at this <;> linarith
  have hSmall : b.significand ≤ 9 := by
    have hLess : (b.significand : ℚ) < 10 := by
      unfold Binary64.value at h
      nlinarith
    exact Nat.lt_succ_iff.mp (by exact_mod_cast hLess)
  -- But then nineteen would divide a product of smaller numbers.
  have hProduct : b.significand * 2 * 2 ^ b.exponent.toNat * 10 ^ (-e).toNat =
      19 * (10 ^ e.toNat * 2 ^ (-b.exponent).toNat) := by
    rw [← Nat.cast_inj (R := ℚ)]
    push_cast
    rw [← zpow_mul_pow_toNat (by norm_num) b.exponent, ← zpow_mul_pow_toNat (by norm_num) e]
    unfold Binary64.value at h
    linear_combination 2 * 2 ^ (-b.exponent).toNat * 10 ^ (-e).toNat * h
  have hPrime : Nat.Prime 19 := by norm_num
  have hDvd : 19 ∣ b.significand * 2 * 2 ^ b.exponent.toNat * 10 ^ (-e).toNat :=
    hProduct ▸ Nat.dvd_mul_right _ _
  have hPos := hb.pos
  rcases hPrime.dvd_mul.mp hDvd with hDvd | hDvd
  · rcases hPrime.dvd_mul.mp hDvd with hDvd | hDvd
    · rcases hPrime.dvd_mul.mp hDvd with hDvd | hDvd
      · have := Nat.le_of_dvd hPos hDvd
        omega
      · exact absurd hDvd (by decide)
    · exact absurd (hPrime.dvd_of_dvd_pow hDvd) (by decide)
  · exact absurd (hPrime.dvd_of_dvd_pow hDvd) (by decide)

namespace Found

variable {point : ℤ} {n k : ℕ} {d : Decimal}

/-- Where another point of the grid is as near, it is odd, and the decimal that is found is even. -/
theorem odd_of_tie (h : Found b point n k) (hb : b.WellFormed) {i : ℕ}
    (hReads : b.Reads (i * 10 ^ (point - 1 - n))) (hOther : i ≠ k)
    (hTie : |(k : ℚ) - b.value / 10 ^ (point - 1 - n)| = |(i : ℚ) - b.value / 10 ^ (point - 1 - n)|) :
    Even (ofScaled k (point - 1 - n)).coefficient ∧ ¬ Even i := by
  obtain ⟨hEven, hOdd⟩ := (h.closest.tie i hReads hTie).resolve_left hOther
  refine ⟨?_, hOdd⟩
  rcases (h.coefficient_eq hb).2 with hAll | ⟨rfl, rfl⟩
  · rwa [hAll]
  · -- Ten is as near as nine only where neither would be found.
    exfalso
    have hUnit : (0 : ℚ) < 10 ^ (point - 1) := by positivity
    simp only [Nat.cast_zero, sub_zero] at hReads hTie
    have hLow := h.closest.le_succ
    simp only [Nat.cast_zero, sub_zero] at hLow
    have hHigh : b.value / 10 ^ (point - 1) < 10 := by
      rw [div_lt_iff₀ hUnit, ← zpow_one_add₀ (by norm_num), add_sub_cancel]
      exact h.value_lt
    set t := b.value / 10 ^ (point - 1) with ht
    push_cast at hTie hLow
    rw [abs_of_pos (by linarith)] at hTie
    -- ten and the other point are on the two sides of the number
    have hMiddle : 10 - t = t - i := by
      rcases abs_cases ((i : ℚ) - t) with ⟨hAbs, -⟩ | ⟨hAbs, -⟩
      · exact absurd (by exact_mod_cast (show (i : ℚ) = 10 by linarith)) hOther
      · linarith
    have hAtLeast : 8 ≤ i := by exact_mod_cast (show (8 : ℚ) ≤ i by linarith)
    have hAtMost : i < 10 := by exact_mod_cast (show (i : ℚ) < 10 by linarith)
    obtain rfl : i = 9 := by
      rw [Nat.even_iff] at hOdd
      omega
    push_cast at hMiddle hReads
    refine not_reads_nine hb (e := point - 1) ?_ hReads
    rw [show (19 / 2 : ℚ) = t by linarith, ht]
    field_simp

/-- Of the decimals with as many digits that are read as the number, none is nearer than what the search
gives; and if another one is as near, its last digit is odd, and that of the search's is even. -/
theorem closest_value (h : Found b point n k) (hb : b.WellFormed) (hd : d.Normal)
    (hReads : b.Reads d.value) (hLength : d.digits.length = n + 1) :
    |(ofScaled k (point - 1 - n)).value - b.value| ≤ |d.value - b.value| ∧
      (|(ofScaled k (point - 1 - n)).value - b.value| = |d.value - b.value| →
        d = ofScaled k (point - 1 - n) ∨
          Even (ofScaled k (point - 1 - n)).coefficient ∧ ¬ Even d.coefficient) := by
  -- distances on the grid are measured in its steps
  have hUnit : (0 : ℚ) < 10 ^ (point - 1 - n) := by positivity
  have hNormal := (exists_ofScaled (h.ne_zero hb) (point - 1 - n)).1
  have hScaled : ∀ i : ℕ, |(i : ℚ) * 10 ^ (point - 1 - n) - b.value| =
      |(i : ℚ) - b.value / 10 ^ (point - 1 - n)| * 10 ^ (point - 1 - n) := by
    intro i
    rw [← abs_of_pos hUnit, ← abs_mul, abs_of_pos hUnit]
    congr 1
    field_simp
  rw [value_ofScaled (h.ne_zero hb), hScaled]
  rcases h.onGrid_or_below hd hReads with ⟨i, hParity, hGrid⟩ | ⟨hPower, hBelow⟩
  · rw [hLength, show point - (n + 1 : ℕ) = point - 1 - n by push_cast; ring] at hGrid
    rw [hGrid] at hReads
    rw [hGrid, hScaled]
    refine ⟨mul_le_mul_of_nonneg_right (h.closest.le i hReads) hUnit.le, fun hTie => ?_⟩
    rcases eq_or_ne i k with rfl | hOther
    · left
      exact hd.eq_of_value_eq hNormal (by rw [hGrid, value_ofScaled (h.ne_zero hb)])
    · right
      obtain ⟨hEven, hOdd⟩ := h.odd_of_tie hb hReads hOther (mul_right_cancel₀ hUnit.ne' hTie)
      exact ⟨hEven, fun h => hOdd (hParity h)⟩
  · -- The power of ten below the number is nearer.
    have hn : n = 0 := by
      by_contra hMore
      exact h.coarser 0 (by omega) 1 (by simpa using hPower)
    have hLess : |(k : ℚ) - b.value / 10 ^ (point - 1 - n)| * 10 ^ (point - 1 - n) <
        |d.value - b.value| := by
      have hOne := h.closest.le 1 (by simpa [hn] using hPower)
      have := mul_le_mul_of_nonneg_right hOne hUnit.le
      rw [← hScaled 1] at this
      refine this.trans_lt ?_
      have hLe := h.le_value
      rw [hn, Nat.cast_zero, sub_zero, Nat.cast_one, one_mul, abs_of_nonpos (by linarith),
        abs_of_neg (by linarith)]
      linarith
    exact ⟨hLess.le, fun hTie => absurd hTie hLess.ne⟩

end Found

/-- The search gives a shortest decimal that is read as the number. -/
theorem isShortest_shortest (hb : b.WellFormed) : (shortest b).IsShortest b := by
  obtain ⟨point, n, k, hFound, hShortest⟩ := exists_found hb
  rw [hShortest]
  -- what is found has one digit more than the number of its grid
  have hLength := (hFound.coefficient_eq hb).1
  refine ⟨(exists_ofScaled (hFound.ne_zero hb) _).1, ?_, fun d hd hNearest => ?_,
    fun d hd hNearest hSame => ?_⟩
  · rw [Binary64.isNearest_iff hb, value_ofScaled (hFound.ne_zero hb)]
    exact hFound.closest.reads
  · rw [hLength]
    exact hFound.lt_length hd ((Binary64.isNearest_iff hb).mp hNearest)
  · obtain ⟨hLe, hTie⟩ := hFound.closest_value hb hd ((Binary64.isNearest_iff hb).mp hNearest)
      (hSame.trans hLength)
    exact ⟨hLe, fun h => (hTie h).imp_right And.left⟩

/-- There is one shortest decimal only. -/
theorem IsShortest.eq_shortest {d : Decimal} (hb : b.WellFormed) (h : d.IsShortest b) :
    d = shortest b := by
  obtain ⟨point, n, k, hFound, hShortest⟩ := exists_found hb
  have hBest := isShortest_shortest hb
  -- Both are as short and as near as can be. If they differed, the last digits of both would be even; but of
  -- two decimals that are as near, one ends in an odd digit.
  have hLength : d.digits.length = (shortest b).digits.length :=
    le_antisymm (h.length_le _ hBest.normal hBest.isNearest) (hBest.length_le _ h.normal h.isNearest)
  obtain ⟨hLe, hTie⟩ := h.closest _ hBest.normal hBest.isNearest hLength.symm
  rw [hShortest] at hLe hTie hLength ⊢
  obtain ⟨hGe, hTie'⟩ := hFound.closest_value hb h.normal ((Binary64.isNearest_iff hb).mp h.isNearest)
    (hLength.trans (hFound.coefficient_eq hb).1)
  rcases hTie' (le_antisymm hGe hLe) with hEq | ⟨-, hOdd⟩
  · exact hEq
  · exact ((hTie (le_antisymm hLe hGe)).resolve_right hOdd).symm

end Decimal

end MessagePattern
