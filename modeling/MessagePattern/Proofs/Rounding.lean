import Mathlib.Algebra.Order.Field.Power
import Mathlib.Data.Rat.Cast.Order
import Mathlib.Tactic.Linarith
import Mathlib.Tactic.NormNum
import Mathlib.Tactic.Positivity
import Mathlib.Tactic.Ring
import MessagePattern.Decimal.Shortest

/-!
# Rounding to floating point numbers

What it means that a rational number is read as a floating point number: no number that a significand of
53 binary digits can give is nearer, and if another one is as near, the significand is even. The numbers
read as one floating point number are an interval, from half way to its lower neighbour to half way to its
upper one. Two neighbours share the point half way between them, and only one of them has an even
significand; so rounding keeps the order, and no number is rounded in two ways.

## Results

* `FloatClass.wellFormed_of_ofBits`, `FloatClass.ofBits_injective` — what 64 bits can stand for.
* `Representable.le_below_or_above_le` — there is nothing between a number and its neighbours.
* `Binary64.isNearest_iff` — the numbers rounded to a floating point number are an interval.
* `Binary64.Reads.value_le_value` — rounding keeps the order.
* `Binary64.Reads.unique` — a number is rounded in one way.
-/

namespace MessagePattern

/-! ## Floating point numbers -/

namespace Binary64

/-- The number that a significand and an exponent stand for. -/
def value (b : Binary64) : ℚ := b.significand * 2 ^ b.exponent

/-- The significand has at most 53 digits, and fewer only where the exponent cannot be less. -/
structure WellFormed (b : Binary64) : Prop where
  pos : 0 < b.significand
  lt : b.significand < 2 ^ 53
  least_le : -1074 ≤ b.exponent
  normal : b.exponent = -1074 ∨ 2 ^ 52 ≤ b.significand
  narrow : b.narrowBelow = true ↔ b.significand = 2 ^ 52 ∧ b.exponent ≠ -1074

/-- The next larger number. -/
def above (b : Binary64) : ℚ := (b.significand + 1) * 2 ^ b.exponent

/-- The next smaller number. Below a power of two the gap is half as wide as above it. -/
def below (b : Binary64) : ℚ :=
  if b.narrowBelow then (2 * b.significand - 1) * 2 ^ (b.exponent - 1)
  else (b.significand - 1) * 2 ^ b.exponent

end Binary64

/-- The numbers that floating point numbers would give if their exponents were not bounded above: a number
beyond the largest is rounded as if there were more. -/
def Representable (y : ℚ) : Prop :=
  ∃ (n : ℕ) (q : ℤ), n ≤ 2 ^ 53 ∧ -1074 ≤ q ∧ y = n * 2 ^ q

/-- A number is rounded to the nearest representable number, and of two to the one with an even
significand. -/
def Binary64.IsNearest (b : Binary64) (x : ℚ) : Prop :=
  ∀ y, Representable y →
    |x - b.value| ≤ |x - y| ∧ (|x - b.value| = |x - y| → y = b.value ∨ Even b.significand)

/-! ## Bits -/

namespace FloatClass

/-- What the bits of a finite number other than zero give is well-formed. -/
theorem wellFormed_of_ofBits {bits : ℕ} {negative : Bool} {b : Binary64}
    (h : ofBits bits = .finite negative b) : b.WellFormed := by
  have hFraction : bits % 2 ^ 52 < 2 ^ 52 := Nat.mod_lt _ (by decide)
  simp only [ofBits, Nat.pow_eq] at h
  split at h
  · split at h <;> cases h
  · split at h
    -- an exponent field of zero marks the numbers without the leading digit
    case isTrue hSubnormal =>
      split at h
      · cases h
      case isFalse hSome =>
        cases h
        exact ⟨by simp only; omega, by simp only; omega, le_rfl, .inl rfl, by simp⟩
    case isFalse hNormal =>
      cases h
      refine ⟨by simp only; omega, by simp only; omega, by simp only; omega,
        .inr (by simp only; omega), ?_⟩
      simp only [Bool.and_eq_true, beq_iff_eq, bne_iff_ne]
      omega

/-- The three fields of the bits of a finite number that is not zero. -/
theorem fields_of_ofBits {bits : ℕ} {negative : Bool} {b : Binary64} (hBits : bits < 2 ^ 64)
    (h : ofBits bits = .finite negative b) :
    bits / 2 ^ 63 = (if negative then 1 else 0) ∧
      bits / 2 ^ 52 % 2 ^ 11 =
        (if b.significand < 2 ^ 52 then 0 else (b.exponent + 1075).toNat) ∧
      bits % 2 ^ 52 = b.significand % 2 ^ 52 := by
  have hFraction : bits % 2 ^ 52 < 2 ^ 52 := Nat.mod_lt _ (by decide)
  have hSign : bits / 2 ^ 63 % 2 = bits / 2 ^ 63 := Nat.mod_eq_of_lt (by omega)
  -- one bit is the sign
  have hNegative : bits / 2 ^ 63 = if bits / 2 ^ 63 == 1 then 1 else 0 := by
    split
    case isTrue hOne => exact beq_iff_eq.mp hOne
    case isFalse hZero =>
      rw [beq_iff_eq] at hZero
      omega
  simp only [ofBits, Nat.pow_eq, hSign] at h
  split at h
  · split at h <;> cases h
  · split at h
    case isTrue hSubnormal =>
      split at h
      · cases h
      · cases h
        exact ⟨hNegative, by simp only [hFraction, ↓reduceIte, hSubnormal], (Nat.mod_mod _ _).symm⟩
    case isFalse hNormal =>
      cases h
      refine ⟨hNegative, ?_, by simp only [Nat.add_mod_left, Nat.mod_mod]⟩
      simp only [Nat.not_lt.mpr (Nat.le_add_right _ _), ↓reduceIte]
      omega

/-- The bits of a finite number that is not zero are determined by it. -/
theorem ofBits_injective {bits bits' : ℕ} {negative : Bool} {b : Binary64}
    (hBits : bits < 2 ^ 64) (hBits' : bits' < 2 ^ 64)
    (h : ofBits bits = .finite negative b) (h' : ofBits bits' = .finite negative b) :
    bits = bits' := by
  obtain ⟨hSign, hBiased, hFraction⟩ := fields_of_ofBits hBits h
  obtain ⟨hSign', hBiased', hFraction'⟩ := fields_of_ofBits hBits' h'
  omega

end FloatClass

/-! ## Neighbours -/

/-- A multiple of a power is one of any smaller power: two products with powers of one base are compared by
their factors once the larger power is split. -/
theorem scaled_eq (base : ℕ) [base.AtLeastTwo] {q q' : ℤ} (hLe : q' ≤ q) (n : ℕ) :
    (n : ℚ) * ofNat(base) ^ q = (n * ofNat(base) ^ (q - q').toNat : ℕ) * ofNat(base) ^ q' := by
  have hSplit : q = q' + ((q - q').toNat : ℤ) := by omega
  calc (n : ℚ) * ofNat(base) ^ q
      = n * (ofNat(base) ^ q' * ofNat(base) ^ (q - q').toNat) := by
        conv_lhs => rw [hSplit]
        rw [zpow_add₀ (OfNat.ofNat_ne_zero base), zpow_natCast]
    _ = (n * ofNat(base) ^ (q - q').toNat : ℕ) * ofNat(base) ^ q' := by push_cast; ring

/-- Every power of two is twice another. -/
theorem two_zpow_eq (q : ℤ) : (2 : ℚ) ^ q = 2 * 2 ^ (q - 1) := by
  rw [zpow_sub_one₀ (by norm_num)]
  ring

namespace Binary64

variable {b b' : Binary64}

/-- A floating point number is one of the representable numbers. -/
theorem representable_value (hb : b.WellFormed) : Representable b.value :=
  ⟨b.significand, b.exponent, hb.lt.le, hb.least_le, rfl⟩

/-- So is the one above it, which may have one more unit. -/
theorem representable_above (hb : b.WellFormed) : Representable b.above :=
  ⟨b.significand + 1, b.exponent, hb.lt, hb.least_le, by push_cast; rfl⟩

/-- So is the one below it, with the finer unit where the gap is narrow. -/
theorem representable_below (hb : b.WellFormed) : Representable b.below := by
  have hPos := hb.pos
  have hLt := hb.lt
  have hLeast := hb.least_le
  unfold below
  split
  case isTrue hNarrow =>
    obtain ⟨hPower, hMore⟩ := hb.narrow.mp hNarrow
    refine ⟨2 * b.significand - 1, b.exponent - 1, by omega, by omega, ?_⟩
    push_cast [show 1 ≤ 2 * b.significand by omega]
    rfl
  case isFalse =>
    refine ⟨b.significand - 1, b.exponent, by omega, hLeast, ?_⟩
    push_cast [show 1 ≤ b.significand by omega]
    rfl

theorem value_pos (hb : b.WellFormed) : 0 < b.value := by
  have hPos : (0 : ℚ) < b.significand := by exact_mod_cast hb.pos
  unfold value
  positivity

/-- The next number is greater. -/
theorem value_lt_above (b : Binary64) : b.value < b.above := by
  have hUnit : (0 : ℚ) < 2 ^ b.exponent := by positivity
  unfold value above
  nlinarith

/-- Half of the gap above a number, in the gap below a power of two. -/
theorem below_eq (b : Binary64) :
    b.below = b.value - (if b.narrowBelow then 2 ^ b.exponent / 2 else 2 ^ b.exponent) := by
  unfold below value
  split
  · rw [zpow_sub_one₀ (by norm_num)]; ring
  · ring

theorem above_eq (b : Binary64) : b.above = b.value + 2 ^ b.exponent := by
  unfold above value
  ring

/-- The number before is smaller. -/
theorem below_lt_value (b : Binary64) : b.below < b.value := by
  have hUnit : (0 : ℚ) < 2 ^ b.exponent := by positivity
  rw [below_eq]
  split <;> linarith

/-- The number before is not negative. -/
theorem below_nonneg (hb : b.WellFormed) : 0 ≤ b.below := by
  obtain ⟨n, q, -, -, hBelow⟩ := representable_below hb
  rw [hBelow]
  positivity

end Binary64

namespace Binary64

variable {b : Binary64}

/-- Multiples of the last place go in steps of it. -/
theorem le_below_or_above_le_of_coarse {q : ℤ} (n : ℕ) (hCoarse : b.exponent ≤ q) :
    (n : ℚ) * 2 ^ q ≤ b.below ∨ (n : ℚ) * 2 ^ q = b.value ∨ b.above ≤ n * 2 ^ q := by
  have hUnit : (0 : ℚ) < 2 ^ b.exponent := by positivity
  rw [scaled_eq 2 hCoarse]
  -- both are multiples of the finer unit, so their factors are compared
  generalize n * 2 ^ (q - b.exponent).toNat = k
  rcases lt_trichotomy k b.significand with hLess | hSame | hMore
  · left
    have hCast : (k : ℚ) + 1 ≤ b.significand := by exact_mod_cast hLess
    rw [below_eq]
    unfold value
    split <;> nlinarith
  · exact .inr (.inl (by rw [hSame, value]))
  · right; right
    have hCast : (b.significand : ℚ) + 1 ≤ k := by exact_mod_cast hMore
    exact mul_le_mul_of_nonneg_right hCast hUnit.le

/-- Just below a power of two, the steps are half as wide. -/
theorem le_below_or_eq_of_power (hb : b.WellFormed) (hPower : b.significand = 2 ^ 52) {n : ℕ} {q : ℤ}
    (hBound : n ≤ 2 ^ 53) (hLeast : -1074 ≤ q) (hFine : q < b.exponent) :
    (n : ℚ) * 2 ^ q ≤ b.below ∨ (n : ℚ) * 2 ^ q = b.value := by
  have hNarrow : b.narrowBelow = true := hb.narrow.mpr ⟨hPower, by omega⟩
  have hSmall : (0 : ℚ) < 2 ^ (b.exponent - 1) := by positivity
  -- the gap below a power of two is half as wide as the gap above
  have hBelow : b.below = (2 ^ 53 - 1) * 2 ^ (b.exponent - 1) := by
    unfold below
    rw [if_pos hNarrow, hPower]
    norm_num
  have hValue : b.value = 2 ^ 53 * 2 ^ (b.exponent - 1) := by
    unfold value
    rw [hPower, two_zpow_eq b.exponent]
    push_cast
    ring
  rcases eq_or_lt_of_le (show q ≤ b.exponent - 1 by omega) with rfl | hFiner
  · -- Here 53 digits reach the power itself, and the number before it is the one below.
    rcases eq_or_lt_of_le hBound with rfl | hLess
    · exact .inr (by rw [hValue]; norm_num)
    · left
      have hCast : (n : ℚ) + 1 ≤ 2 ^ 53 := by exact_mod_cast hLess
      rw [hBelow]
      exact mul_le_mul_of_nonneg_right (by linarith) hSmall.le
  · left
    have hCast : (n : ℚ) ≤ 2 ^ 53 := by exact_mod_cast hBound
    have hHalf := two_zpow_eq (b.exponent - 1)
    have hScale : (n : ℚ) * 2 ^ q ≤ n * 2 ^ (b.exponent - 1 - 1) :=
      mul_le_mul_of_nonneg_left (zpow_le_zpow_right₀ (by norm_num) (by omega)) (by positivity)
    rw [hBelow]
    nlinarith

/-- Finer numbers end where the significands of an exponent start. -/
theorem le_below_or_eq_of_fine (hb : b.WellFormed) {n : ℕ} {q : ℤ} (hBound : n ≤ 2 ^ 53)
    (hLeast : -1074 ≤ q) (hFine : q < b.exponent) :
    (n : ℚ) * 2 ^ q ≤ b.below ∨ (n : ℚ) * 2 ^ q = b.value := by
  -- a finer unit than its own is only there for a number with all 53 digits
  have hNormal : 2 ^ 52 ≤ b.significand := hb.normal.resolve_left (by omega)
  by_cases hPower : b.significand = 2 ^ 52
  · exact le_below_or_eq_of_power hb hPower hBound hLeast hFine
  · left
    have hWide : b.narrowBelow = false :=
      Bool.eq_false_iff.mpr fun hNarrow => hPower (hb.narrow.mp hNarrow).1
    have hSmall : (0 : ℚ) < 2 ^ (b.exponent - 1) := by positivity
    have hCast : (n : ℚ) ≤ 2 ^ 53 := by exact_mod_cast hBound
    have hMore : (2 : ℚ) ^ 52 + 1 ≤ b.significand := by
      exact_mod_cast Nat.lt_of_le_of_ne hNormal (Ne.symm hPower)
    -- a finer unit is at most half of the number's own
    have hScale : (n : ℚ) * 2 ^ q ≤ n * 2 ^ (b.exponent - 1) :=
      mul_le_mul_of_nonneg_left (zpow_le_zpow_right₀ (by norm_num) (by omega)) (by positivity)
    unfold below
    rw [hWide, if_neg (by decide), two_zpow_eq b.exponent]
    nlinarith

end Binary64

/-- There is nothing between a number and its neighbours. -/
theorem Representable.le_below_or_above_le {b : Binary64} {y : ℚ} (hb : b.WellFormed)
    (hy : Representable y) : y ≤ b.below ∨ y = b.value ∨ b.above ≤ y := by
  obtain ⟨n, q, hBound, hLeast, rfl⟩ := hy
  rcases le_or_gt b.exponent q with hCoarse | hFine
  · exact Binary64.le_below_or_above_le_of_coarse n hCoarse
  · exact (Binary64.le_below_or_eq_of_fine hb hBound hLeast hFine).imp_right .inl

namespace Binary64

variable {b b' : Binary64} {x y : ℚ}

/-! ## Intervals -/

/-- What lies between the half ways to both neighbours, these included where the significand is even. -/
def Reads (b : Binary64) (x : ℚ) : Prop :=
  if Even b.significand then (b.below + b.value) / 2 ≤ x ∧ x ≤ (b.value + b.above) / 2
  else (b.below + b.value) / 2 < x ∧ x < (b.value + b.above) / 2

/-- What is read as a number lies between the half ways to its neighbours. -/
theorem Reads.le (h : b.Reads x) : (b.below + b.value) / 2 ≤ x ∧ x ≤ (b.value + b.above) / 2 := by
  unfold Reads at h
  split at h
  · exact h
  · exact ⟨h.1.le, h.2.le⟩

/-- What is read as a number and lies half way to a neighbour has chosen an even significand. -/
theorem Reads.even (h : b.Reads x)
    (hEnd : x = (b.below + b.value) / 2 ∨ x = (b.value + b.above) / 2) : Even b.significand := by
  by_contra hOdd
  rw [Reads, if_neg hOdd] at h
  rcases hEnd with rfl | rfl
  · exact lt_irrefl _ h.1
  · exact lt_irrefl _ h.2

/-- All that lies strictly between the half ways is read as the number. -/
theorem reads_of_lt (hLow : (b.below + b.value) / 2 < x) (hHigh : x < (b.value + b.above) / 2) :
    b.Reads x := by
  unfold Reads
  split
  · exact ⟨hLow.le, hHigh.le⟩
  · exact ⟨hLow, hHigh⟩

/-- A number is read as itself. -/
theorem reads_value (b : Binary64) : b.Reads b.value :=
  reads_of_lt (by linarith [b.below_lt_value]) (by linarith [b.value_lt_above])

/-- What lies between two numbers of the interval is in it. -/
theorem Reads.convex {z : ℚ} (hx : b.Reads x) (hz : b.Reads z) (hxy : x ≤ y) (hyz : y ≤ z) :
    b.Reads y := by
  unfold Reads at hx hz ⊢
  split
  case isTrue hEven =>
    rw [if_pos hEven] at hx hz
    exact ⟨hx.1.trans hxy, hyz.trans hz.2⟩
  case isFalse hOdd =>
    rw [if_neg hOdd] at hx hz
    exact ⟨hx.1.trans_le hxy, hyz.trans_lt hz.2⟩

/-- What is read as a number is positive. -/
theorem Reads.pos (hb : b.WellFormed) (h : b.Reads x) : 0 < x := by
  linarith [h.le.1, below_nonneg hb, value_pos hb]

/-- What is nearest to a number is nearer to it than its neighbours are. -/
theorem IsNearest.reads (hb : b.WellFormed) (h : b.IsNearest x) : b.Reads x := by
  have hBelow := b.below_lt_value
  have hAbove := b.value_lt_above
  -- both neighbours are representable, so neither is nearer
  obtain ⟨hLow, hLowTie⟩ := h _ (representable_below hb)
  obtain ⟨hHigh, hHighTie⟩ := h _ (representable_above hb)
  -- outside of the half ways a neighbour would be nearer
  have hLe : (b.below + b.value) / 2 ≤ x ∧ x ≤ (b.value + b.above) / 2 := by
    constructor
    · by_contra! hLess
      rw [abs_of_neg (by linarith), abs_eq_max_neg] at hLow
      rcases le_max_iff.mp hLow with h | h <;> linarith
    · by_contra! hMore
      rw [abs_of_pos (by linarith), abs_eq_max_neg] at hHigh
      rcases le_max_iff.mp hHigh with h | h <;> linarith
  unfold Reads
  split
  case isTrue => exact hLe
  case isFalse hOdd =>
    -- At an end of the interval a neighbour is as near, so the significand would be even.
    refine ⟨lt_of_le_of_ne hLe.1 fun hEnd => ?_, lt_of_le_of_ne hLe.2 fun hEnd => ?_⟩
    · rcases hLowTie (by rw [← hEnd, abs_of_neg (by linarith), abs_of_pos (by linarith)]; ring)
        with h | h
      · exact hBelow.ne h
      · exact hOdd h
    · rcases hHighTie (by rw [hEnd, abs_of_pos (by linarith), abs_of_neg (by linarith)]; ring)
        with h | h
      · exact hAbove.ne' h
      · exact hOdd h

/-- What is nearer to a number than to its neighbours is nearer to it than to all beyond them. -/
theorem Reads.isNearest (hb : b.WellFormed) (h : b.Reads x) : b.IsNearest x := by
  intro y hy
  obtain ⟨hLow, hHigh⟩ := h.le
  have hBelow := b.below_lt_value
  have hAbove := b.value_lt_above
  -- another representable number is not above the lower neighbour, or not below the upper one
  rcases hy.le_below_or_above_le hb with hLess | rfl | hMore
  · have hDistance : |x - y| = x - y := abs_of_pos (by linarith)
    rw [hDistance]
    refine ⟨abs_le.mpr ⟨by linarith, by linarith⟩, fun hTie => .inr (h.even (.inl ?_))⟩
    rcases abs_cases (x - b.value) with ⟨hAbs, -⟩ | ⟨hAbs, -⟩ <;> linarith
  · exact ⟨le_rfl, fun _ => .inl rfl⟩
  · have hDistance : |x - y| = y - x := by rw [abs_of_neg (by linarith)]; ring
    rw [hDistance]
    refine ⟨abs_le.mpr ⟨by linarith, by linarith⟩, fun hTie => .inr (h.even (.inr ?_))⟩
    rcases abs_cases (x - b.value) with ⟨hAbs, -⟩ | ⟨hAbs, -⟩ <;> linarith

/-- The numbers rounded to a floating point number are an interval. -/
theorem isNearest_iff (hb : b.WellFormed) : b.IsNearest x ↔ b.Reads x :=
  ⟨IsNearest.reads hb, Reads.isNearest hb⟩

/-! ## Order -/

/-- Of two forms of one number neither has the greater exponent. -/
theorem exponent_le_of_value_eq (hb : b.WellFormed) (hb' : b'.WellFormed)
    (h : b.value = b'.value) : b.exponent ≤ b'.exponent := by
  by_contra! hLess
  -- With the larger exponent the significand has all its 53 digits, and twice it has more.
  unfold value at h
  rw [scaled_eq 2 hLess.le] at h
  have hFactor := mul_right_cancel₀ (by positivity) h
  have hLt := hb'.lt
  have hNormal : 2 ^ 52 ≤ b.significand := hb.normal.resolve_left (by have := hb'.least_le; omega)
  have hTwice : 2 ^ 1 ≤ 2 ^ (b.exponent - b'.exponent).toNat :=
    Nat.pow_le_pow_right (by decide) (by omega)
  have : b.significand * 2 ^ (b.exponent - b'.exponent).toNat = b'.significand := by
    exact_mod_cast hFactor
  nlinarith

/-- A number is told by its value. -/
theorem eq_of_value_eq (hb : b.WellFormed) (hb' : b'.WellFormed) (h : b.value = b'.value) :
    b = b' := by
  have hExponent : b.exponent = b'.exponent :=
    le_antisymm (exponent_le_of_value_eq hb hb' h) (exponent_le_of_value_eq hb' hb h.symm)
  have hSignificand : b.significand = b'.significand := by
    unfold value at h
    rw [hExponent] at h
    exact_mod_cast mul_right_cancel₀ (by positivity) h
  -- whether the gap below is narrow is told by the other fields
  have hNarrow : b.narrowBelow = b'.narrowBelow := by
    rw [Bool.eq_iff_iff, hb.narrow, hb'.narrow, hSignificand, hExponent]
  cases b
  cases b'
  simp_all

/-- Of two neighbours, one has an odd significand. -/
theorem not_even_of_above_eq (hb : b.WellFormed) (hb' : b'.WellFormed) (h : b.above = b'.value)
    (hEven : Even b.significand) : ¬ Even b'.significand := by
  intro hEven'
  have hLt := hb.lt
  have hLt' := hb'.lt
  have hCast : ((b.significand + 1 : ℕ) : ℚ) * 2 ^ b.exponent = b'.significand * 2 ^ b'.exponent := by
    push_cast
    exact h
  rcases le_or_gt b.exponent b'.exponent with hLe | hGt
  · -- The next significand, written with the smaller exponent, is a multiple of an even one.
    rw [scaled_eq 2 hLe] at hCast
    have hFactor : b.significand + 1 = b'.significand * 2 ^ (b'.exponent - b.exponent).toNat := by
      exact_mod_cast mul_right_cancel₀ (by positivity) hCast
    have hSucc : Even (b.significand + 1) := hFactor ▸ hEven'.mul_right _
    exact Nat.not_even_iff_odd.mpr hEven.add_one hSucc
  · -- The next number cannot have the smaller exponent: its significand would not fit.
    rw [scaled_eq 2 hGt.le] at hCast
    have hFactor : (b.significand + 1) * 2 ^ (b.exponent - b'.exponent).toNat = b'.significand := by
      exact_mod_cast mul_right_cancel₀ (by positivity) hCast
    have hNormal : 2 ^ 52 ≤ b.significand :=
      hb.normal.resolve_left (by have := hb'.least_le; omega)
    have hTwice : 2 ^ 1 ≤ 2 ^ (b.exponent - b'.exponent).toNat :=
      Nat.pow_le_pow_right (by decide) (by omega)
    nlinarith

/-- Everything that is rounded to the smaller of two numbers is less than everything that is rounded to the
larger. -/
theorem Reads.lt_of_value_lt (hb : b.WellFormed) (hb' : b'.WellFormed) (hx : b.Reads x)
    (hy : b'.Reads y) (h : b.value < b'.value) : x < y := by
  -- the smaller number and the greater one are neighbours at most
  have hAbove : b.above ≤ b'.value := by
    rcases (representable_value hb').le_below_or_above_le hb with hLess | hSame | hMore
    · linarith [b.below_lt_value]
    · linarith
    · exact hMore
  have hBelow : b.value ≤ b'.below := by
    rcases (representable_value hb).le_below_or_above_le hb' with hLess | hSame | hMore
    · exact hLess
    · linarith
    · linarith [b'.value_lt_above]
  refine lt_of_le_of_ne (by linarith [hx.le.2, hy.le.1]) fun hSame => ?_
  -- Only the point half way between two neighbours is left.
  subst hSame
  have hEven := hx.even (.inr (by linarith [hx.le.2, hy.le.1]))
  have hEven' := hy.even (.inl (by linarith [hx.le.2, hy.le.1]))
  exact not_even_of_above_eq hb hb' (by linarith [hx.le.2, hy.le.1]) hEven hEven'

/-- Rounding keeps the order. -/
theorem Reads.value_le_value (hb : b.WellFormed) (hb' : b'.WellFormed) (hx : b.Reads x)
    (hy : b'.Reads y) (h : x ≤ y) : b.value ≤ b'.value := by
  by_contra! hGt
  exact absurd (hy.lt_of_value_lt hb' hb hx hGt) (not_lt.mpr h)

/-- A number is rounded in one way. -/
theorem Reads.unique (hb : b.WellFormed) (hb' : b'.WellFormed) (h : b.Reads x) (h' : b'.Reads x) :
    b = b' :=
  eq_of_value_eq hb hb' (le_antisymm (h.value_le_value hb hb' h' le_rfl)
    (h'.value_le_value hb' hb h le_rfl))

end Binary64

end MessagePattern
