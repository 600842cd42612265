import Mathlib.Data.List.TakeWhile
import Mathlib.Data.Nat.Digits.Lemmas
import MessagePattern.Proofs.Rounding

/-!
# The value of a decimal

A decimal is a numeral and a place for its point; it is normal if its digits are digits, and none of them
could be left out at either end. The digits of a normal decimal are those of its coefficient, so a normal
decimal is known from its value: the place of the point from the size of it, and the number of digits from
the coefficient not ending in zero.

## Results

* `Decimal.Normal.digits_coefficient` — the digits are those of the coefficient.
* `Decimal.Normal.value_lt`, `Decimal.Normal.le_value` — the powers of ten around a normal decimal.
* `Decimal.Normal.eq_of_value_eq` — a normal decimal is known from its value.
* `Decimal.exists_ofScaled` — what is left of a numeral without the zeros at its end.
-/

namespace MessagePattern

namespace Decimal

/-- The number that the digits denote, without a point. -/
def coefficient (d : Decimal) : ℕ := Nat.ofDigits 10 d.digits.reverse

/-- The number that a decimal denotes. -/
def value (d : Decimal) : ℚ := d.coefficient * 10 ^ (d.point - d.digits.length)

/-- Digits of which none could be left out: there are some, and neither the first nor the last is zero. -/
structure Normal (d : Decimal) : Prop where
  lt_ten : ∀ x ∈ d.digits, x < 10
  ne_nil : d.digits ≠ []
  first_ne : d.digits.head? ≠ some 0
  last_ne : d.digits.getLast? ≠ some 0

/-! ## Normal decimals -/

namespace Normal

variable {d d' : Decimal}

/-- The digits of the coefficient are those of the decimal. -/
theorem digits_coefficient (h : d.Normal) : Nat.digits 10 d.coefficient = d.digits.reverse := by
  refine Nat.digits_ofDigits 10 (by decide) _ (fun x hx => h.lt_ten x (List.mem_reverse.mp hx)) ?_
  intro hSome hZero
  rw [List.getLast_reverse] at hZero
  exact h.first_ne (by rw [← hZero, List.head?_eq_some_head])

theorem length_pos (h : d.Normal) : 0 < d.digits.length := List.length_pos_iff.mpr h.ne_nil

/-- The coefficient of a normal decimal is positive, as its first digit is. -/
theorem coefficient_pos (h : d.Normal) : 0 < d.coefficient := by
  have hDigits : Nat.digits 10 d.coefficient ≠ [] := by
    rw [h.digits_coefficient]
    exact List.reverse_ne_nil_iff.mpr h.ne_nil
  exact Nat.pos_of_ne_zero (Nat.digits_ne_nil_iff_ne_zero.mp hDigits)

theorem length_digits (h : d.Normal) : (Nat.digits 10 d.coefficient).length = d.digits.length := by
  rw [h.digits_coefficient, List.length_reverse]

/-- The coefficient is less than the power of ten with one digit more. -/
theorem coefficient_lt (h : d.Normal) : d.coefficient < 10 ^ d.digits.length := by
  rw [← h.length_digits]
  exact Nat.lt_base_pow_length_digits (by decide)

/-- The coefficient is at least the power of ten with as many digits. -/
theorem le_coefficient (h : d.Normal) : 10 ^ (d.digits.length - 1) ≤ d.coefficient := by
  have hPos := h.length_pos
  rw [← Nat.lt_digits_length_iff (by decide), h.length_digits]
  omega

/-- A coefficient ends in the last digit. -/
theorem coefficient_mod (h : d.Normal) :
    d.digits.getLast? = some (d.coefficient % 10) := by
  obtain ⟨front, last, hDigits⟩ := List.eq_nil_or_concat d.digits |>.resolve_left h.ne_nil
  have hLast : last < 10 := h.lt_ten last (by simp [hDigits])
  rw [hDigits, coefficient, hDigits]
  simp only [List.concat_eq_append, List.getLast?_append, List.getLast?_singleton, Option.some_or,
    List.reverse_append, List.reverse_singleton, List.singleton_append, Nat.ofDigits_cons]
  rw [Nat.add_mul_mod_self_left, Nat.mod_eq_of_lt hLast]

/-- The coefficient of a normal decimal does not end in zero. -/
theorem coefficient_mod_ne (h : d.Normal) : d.coefficient % 10 ≠ 0 := fun hZero =>
  h.last_ne (by rw [h.coefficient_mod, hZero])

theorem value_pos (h : d.Normal) : 0 < d.value := by
  have hPos : (0 : ℚ) < d.coefficient := by exact_mod_cast h.coefficient_pos
  unfold value
  positivity

/-- A normal decimal is less than the power of ten at its point. -/
theorem value_lt (h : d.Normal) : d.value < 10 ^ d.point := by
  have hLt : (d.coefficient : ℚ) < 10 ^ d.digits.length := by exact_mod_cast h.coefficient_lt
  calc d.value
      < 10 ^ d.digits.length * 10 ^ (d.point - d.digits.length) :=
        mul_lt_mul_of_pos_right hLt (by positivity)
    _ = 10 ^ d.point := by
        rw [← zpow_natCast, ← zpow_add₀ (by norm_num)]
        congr 1
        ring

/-- A normal decimal is at least the power of ten one below its point. -/
theorem le_value (h : d.Normal) : 10 ^ (d.point - 1) ≤ d.value := by
  have hPos := h.length_pos
  have hLe : ((10 : ℚ)) ^ (d.digits.length - 1) ≤ d.coefficient := by exact_mod_cast h.le_coefficient
  calc (10 : ℚ) ^ (d.point - 1)
      = 10 ^ (d.digits.length - 1) * 10 ^ (d.point - d.digits.length) := by
        rw [← zpow_natCast, ← zpow_add₀ (by norm_num)]
        congr 1
        push_cast [show 1 ≤ d.digits.length by omega]
        ring
    _ ≤ d.value := mul_le_mul_of_nonneg_right hLe (by positivity)

/-- The greater of two normal decimals has its point no further left. -/
theorem point_le_of_value_le (h : d.Normal) (h' : d'.Normal) (hLe : d.value ≤ d'.value) :
    d.point ≤ d'.point := by
  by_contra! hGt
  have hStep : (10 : ℚ) ^ d'.point ≤ 10 ^ (d.point - 1) :=
    zpow_le_zpow_right₀ (by norm_num) (by omega)
  linarith [h.le_value, h'.value_lt]

/-- Two normal decimals that are one number have equally many digits. -/
theorem length_le_of_value_eq (h : d.Normal) (h' : d'.Normal) (hEq : d.value = d'.value) :
    d.digits.length ≤ d'.digits.length := by
  have hPoint : d.point = d'.point :=
    le_antisymm (h.point_le_of_value_le h' hEq.le) (h'.point_le_of_value_le h hEq.ge)
  by_contra! hMore
  -- With more digits, the coefficient would end in zero.
  unfold value at hEq
  rw [hPoint, scaled_eq 10 (show (d'.point - d.digits.length : ℤ) ≤ d'.point - d'.digits.length
    by omega)] at hEq
  have hFactor : d.coefficient = d'.coefficient * 10 ^
      (d'.point - d'.digits.length - (d'.point - d.digits.length)).toNat := by
    exact_mod_cast mul_right_cancel₀ (by positivity) hEq
  obtain ⟨k, hk⟩ : ∃ k, (d'.point - d'.digits.length - (d'.point - d.digits.length)).toNat = k + 1 :=
    ⟨d.digits.length - d'.digits.length - 1, by omega⟩
  refine h.coefficient_mod_ne ?_
  rw [hFactor, hk, pow_succ, ← mul_assoc, Nat.mul_mod_left]

/-- A normal decimal is told by its value. -/
theorem eq_of_value_eq (h : d.Normal) (h' : d'.Normal) (hEq : d.value = d'.value) : d = d' := by
  have hPoint : d.point = d'.point :=
    le_antisymm (h.point_le_of_value_le h' hEq.le) (h'.point_le_of_value_le h hEq.ge)
  have hLength : d.digits.length = d'.digits.length :=
    le_antisymm (h.length_le_of_value_eq h' hEq) (h'.length_le_of_value_eq h hEq.symm)
  -- with one point and equally many digits, the values tell the coefficients
  have hCoefficient : d.coefficient = d'.coefficient := by
    unfold value at hEq
    rw [hPoint, hLength] at hEq
    exact_mod_cast mul_right_cancel₀ (by positivity) hEq
  have hDigits : d.digits = d'.digits := by
    rw [← List.reverse_inj, ← h.digits_coefficient, ← h'.digits_coefficient, hCoefficient]
  cases d
  cases d'
  simp_all

end Normal

/-! ## Numerals -/

/-- The numeral of a number shows its digits from the last to the first. -/
theorem toDigits_eq {n : ℕ} (hn : n ≠ 0) :
    Nat.toDigits 10 n = (Nat.digits 10 n).reverse.map Nat.digitChar := by
  induction n using Nat.strong_induction_on with
  | _ n ih =>
    rcases lt_or_ge n 10 with hSmall | hLarge
    · rw [Nat.toDigits_of_lt_base hSmall, Nat.digits_of_lt 10 n hn hSmall]
      rfl
    · rw [Nat.toDigits_of_base_le (by decide) hLarge, ih (n / 10) (by omega) (by omega),
        Nat.digits_def' (n := n) (by decide) (by omega), List.reverse_cons, List.map_append]
      rfl

/-- The digits of a numeral are those of the number, from the last to the first. -/
theorem digitsOf_eq {n : ℕ} (hn : n ≠ 0) : digitsOf n = (Nat.digits 10 n).reverse := by
  rw [digitsOf, toDigits_eq hn, List.map_map]
  refine (List.map_congr_left fun x hx => ?_).trans (List.map_id _)
  have hDigit : x < 10 := Nat.digits_lt_base (by decide) (List.mem_reverse.mp hx)
  exact Nat.toNat_digitChar_sub_48_of_lt_ten hDigit

/-- The digits of a number, from its units on, are zeros and what is left without them. -/
theorem exists_zeros {n : ℕ} (hn : n ≠ 0) :
    ∃ (zeros : ℕ) (rest : List ℕ), Nat.digits 10 n = List.replicate zeros 0 ++ rest ∧
      (Nat.digits 10 n).dropWhile (· == 0) = rest ∧ rest ≠ [] ∧
      rest.head? ≠ some 0 ∧ rest.getLast? ≠ some 0 := by
  have hSome : Nat.digits 10 n ≠ [] := Nat.digits_ne_nil_iff_ne_zero.mpr hn
  have hLast : (Nat.digits 10 n).getLast? ≠ some 0 := by
    rw [List.getLast?_eq_some_getLast hSome]
    simpa using Nat.getLast_digit_ne_zero 10 hn
  have hZeros : (Nat.digits 10 n).takeWhile (· == 0) =
      List.replicate ((Nat.digits 10 n).takeWhile (· == 0)).length 0 :=
    List.eq_replicate_iff.mpr ⟨rfl, fun x hx => by simpa using List.mem_takeWhile_imp hx⟩
  -- the zeros at the end of a number, and the digits before them
  have hSplit : Nat.digits 10 n =
      List.replicate ((Nat.digits 10 n).takeWhile (· == 0)).length 0 ++
        (Nat.digits 10 n).dropWhile (· == 0) := by
    rw [← hZeros, List.takeWhile_append_dropWhile]
  have hRest : (Nat.digits 10 n).dropWhile (· == 0) ≠ [] := by
    intro hNone
    rw [hNone, List.append_nil] at hSplit
    rw [hSplit, List.getLast?_replicate] at hLast
    split at hLast
    case isTrue hEmpty =>
      rw [hEmpty] at hSplit
      exact hSome hSplit
    case isFalse => exact hLast rfl
  -- The first digit that is left was not dropped, and the last is the number's own.
  refine ⟨_, _, hSplit, rfl, hRest, fun hZero => ?_, ?_⟩
  · have := List.head?_dropWhile_not (· == 0) (Nat.digits 10 n)
    simp [hZero] at this
  · rwa [hSplit, List.getLast?_append_of_ne_nil _ hRest] at hLast

/-- What is left of a numeral without the zeros at its end. -/
theorem exists_ofScaled {n : ℕ} (hn : n ≠ 0) (e : ℤ) :
    (ofScaled n e).Normal ∧ ∃ k : ℕ, n = (ofScaled n e).coefficient * 10 ^ k ∧
      (ofScaled n e).digits.length + k = (Nat.digits 10 n).length ∧
      (ofScaled n e).point = (Nat.digits 10 n).length + e := by
  obtain ⟨zeros, rest, hSplit, hDrop, hSome, hHead, hLast⟩ := exists_zeros hn
  have hDigits : (ofScaled n e).digits = rest.reverse := by
    simp only [ofScaled, digitsOf_eq hn, List.reverse_reverse, hDrop]
  -- the zeros that were left out are a power of ten
  have hValue : n = Nat.ofDigits 10 rest * 10 ^ zeros := by
    calc n = Nat.ofDigits 10 (List.replicate zeros 0 ++ rest) := by rw [← hSplit, Nat.ofDigits_digits]
      _ = Nat.ofDigits 10 rest * 10 ^ zeros := by
          rw [Nat.ofDigits_append, Nat.ofDigits_replicate_zero, List.length_replicate]
          ring
  -- the digits are digits, and neither the first nor the last is zero
  refine ⟨⟨fun x hx => ?_, ?_, ?_, ?_⟩, zeros, ?_, ?_, ?_⟩
  · rw [hDigits, List.mem_reverse] at hx
    refine Nat.digits_lt_base (m := n) (by decide) ?_
    rw [hSplit]
    exact List.mem_append_right _ hx
  · rw [hDigits]
    exact List.reverse_ne_nil_iff.mpr hSome
  · rwa [hDigits, List.head?_reverse]
  · rwa [hDigits, List.getLast?_reverse]
  · rw [coefficient, hDigits, List.reverse_reverse]
    exact hValue
  · rw [hDigits, List.length_reverse, hSplit, List.length_append, List.length_replicate, Nat.add_comm]
  · simp only [ofScaled, digitsOf_eq hn, List.length_reverse]

/-- A scaled number is the value of its decimal. -/
theorem value_ofScaled {n : ℕ} (hn : n ≠ 0) (e : ℤ) : (ofScaled n e).value = n * 10 ^ e := by
  obtain ⟨-, k, hCoefficient, hLength, hPoint⟩ := exists_ofScaled hn e
  -- the point is where it was, however many zeros were left out
  have hExponent : (ofScaled n e).point - (ofScaled n e).digits.length = e + k := by
    rw [hPoint, ← hLength]
    push_cast
    ring
  calc (ofScaled n e).value
      = (ofScaled n e).coefficient * 10 ^ (e + k) := by rw [value, hExponent]
    _ = ((ofScaled n e).coefficient * 10 ^ k : ℕ) * 10 ^ e := by
        rw [zpow_add₀ (by norm_num), zpow_natCast]
        push_cast
        ring
    _ = n * 10 ^ e := by rw [← hCoefficient]

end Decimal

end MessagePattern
