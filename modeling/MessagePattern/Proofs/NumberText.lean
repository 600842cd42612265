import MessagePattern.PatternValue
import MessagePattern.Proofs.DecimalNotation
import MessagePattern.Proofs.ShortestDecimal

/-!
# The texts of numbers

A finite number other than zero is turned into text from its literal, which is the shortest decimal that is
read as the number. Which way the literal is rewritten is decided by comparing the number with the numbers
that a millionth and ten to the twenty-first are rounded to. As rounding keeps the order, that is the same
as comparing the exponents of their decimals; so the text is in the notation of the web for the very decimal
that the literal shows. The text therefore denotes what the literal denotes, and two numbers with one text
would both be what that decimal is rounded to.

## Results

* `Binary64.le_iff_exponent_le` — bounds on numbers are bounds on exponents.
* `webText_eq` — a rewritten literal is in the notation of the web.
* `PatternValue.toText_finite` — the texts of finite numbers other than zero: what they look like, what they
  denote, and that they tell the numbers apart.
-/

namespace MessagePattern

open DecimalFormat

/-! ## The notation of the web -/

/-- The exponent of a decimal written as `d₁.d₂…dₖ * 10 ^ e`. -/
def Decimal.exponent (d : Decimal) : ℤ := d.point - 1

/-- The number notation of the web. From a millionth on, and below ten to the twenty-first, there is no
exponent: a number below one starts with a zero and a point, any other has a point only if there is a digit
after it, and no zero stands at the end of a fraction. Other numbers have a point after their first digit,
if there are more, and an exponent with a sign and without zeros in front. -/
inductive Decimal.WebNotation (d : Decimal) : List Char → Prop
  | belowOne : -6 ≤ d.exponent → d.exponent < 0 →
      WebNotation d ('0' :: '.' ::
        (List.replicate (-d.exponent - 1).toNat '0' ++ digitChars d.digits))
  | fractional : 0 ≤ d.exponent → d.exponent < 21 → d.exponent + 1 < d.digits.length →
      WebNotation d ((digitChars d.digits).take (d.exponent + 1).toNat ++
        '.' :: (digitChars d.digits).drop (d.exponent + 1).toNat)
  | whole : 0 ≤ d.exponent → d.exponent < 21 → d.digits.length ≤ d.exponent + 1 →
      WebNotation d (digitChars d.digits ++
        List.replicate (d.exponent + 1 - d.digits.length).toNat '0')
  | scientific (first : Char) (others : List Char) : d.exponent < -6 ∨ 21 ≤ d.exponent →
      digitChars d.digits = first :: others →
      WebNotation d ([first] ++ (if others = [] then [] else '.' :: others) ++
        'e' :: (if d.exponent < 0 then '-' else '+') :: Nat.toDigits 10 d.exponent.natAbs)

/-- What is written in the format of the web is in its notation. -/
theorem Decimal.Normal.webNotation_write {d : Decimal} (h : d.Normal) :
    d.WebNotation (webNumber.write d) := by
  have hExponent : d.exponent + 1 = d.point := sub_add_cancel _ _
  rw [write]
  split
  case isTrue hRange =>
    rw [show webNumber.leastPositional = -6 from rfl,
      show webNumber.leastScientific = 21 from rfl] at hRange
    -- the point is in front of the digits, among them, or behind them
    rcases le_or_gt d.point 0 with hBelow | hPos
    · rw [positional_of_nonpos _ hBelow, show -d.point = -d.exponent - 1 by omega]
      exact .belowOne hRange.1 (by omega)
    · rcases lt_or_ge d.point d.digits.length with hLt | hLe
      · rw [positional_of_lt _ hPos hLt, ← hExponent]
        exact .fractional (by omega) hRange.2 (by omega)
      · rw [positional_of_le _ hPos hLe, ← hExponent]
        refine (List.append_nil _).symm ▸ .whole (by omega) hRange.2 (by omega)
  case isFalse hRange =>
    rw [show webNumber.leastPositional = -6 from rfl,
      show webNumber.leastScientific = 21 from rfl] at hRange
    obtain ⟨first, others, hSome⟩ := List.exists_cons_of_ne_nil (digitChars_ne_nil h)
    rw [webNumber_scientific_eq hSome]
    -- outside of the range the exponent is written
    have hFar : d.exponent < -6 ∨ 21 ≤ d.exponent := by omega
    exact .scientific first others hFar hSome

/-- A number in the notation of the web starts with a digit, so a minus sign is one of the number. -/
theorem Decimal.WebNotation.head?_ne {d : Decimal} {text : List Char} (hd : d.Normal)
    (h : d.WebNotation text) : text.head? ≠ some '-' := by
  have hNoMinus : '-' ∉ digitChars d.digits := not_mem_digitChars hd.lt_ten (by decide)
  obtain ⟨first, others, hSome⟩ := List.exists_cons_of_ne_nil (digitChars_ne_nil hd)
  have hFirst : first ≠ '-' := fun hEq => hNoMinus (by rw [hSome, hEq]; exact List.mem_cons_self)
  cases h with
  | belowOne => simp
  | fractional hPos =>
    obtain ⟨n, hn⟩ : ∃ n, (d.exponent + 1).toNat = n + 1 := ⟨d.exponent.toNat, by omega⟩
    simp [hSome, hn, hFirst]
  | whole => simp [hSome, hFirst]
  | scientific first' others' _ hSome' =>
    obtain ⟨rfl, rfl⟩ := List.cons.inj (hSome.symm.trans hSome')
    simp [hFirst]

/-! ## Bounds -/

namespace Binary64

variable {b c : Binary64}

/-- The comparison of two floating point numbers is that of their values. -/
theorem le_iff (b c : Binary64) : b.le c = true ↔ b.value ≤ c.value := by
  unfold le value
  rw [decide_eq_true_eq]
  rcases le_total b.exponent c.exponent with hLe | hLe
  · have hUnit : (0 : ℚ) < 2 ^ b.exponent := by positivity
    have hNone : (b.exponent - c.exponent).toNat = 0 := by omega
    rw [scaled_eq 2 hLe, mul_le_mul_iff_of_pos_right hUnit, Nat.cast_le, hNone]
    simp only [Nat.pow_eq, pow_zero, mul_one]
  · have hUnit : (0 : ℚ) < 2 ^ c.exponent := by positivity
    have hNone : (c.exponent - b.exponent).toNat = 0 := by omega
    rw [scaled_eq 2 hLe, mul_le_mul_iff_of_pos_right hUnit, Nat.cast_le, hNone]
    simp only [Nat.pow_eq, pow_zero, mul_one]

/-- The floating point number for a millionth is well-formed. -/
theorem wellFormed_millionth : millionth.WellFormed := by
  have hBits : FloatClass.ofBits 0x3EB0C6F7A0B5ED8D = .finite false millionth := by decide
  exact FloatClass.wellFormed_of_ofBits hBits

/-- The floating point number for ten to the twenty-first is well-formed. -/
theorem wellFormed_sextillion : sextillion.WellFormed := by
  have hBits : FloatClass.ofBits 0x444B1AE4D6E2EF50 = .finite false sextillion := by decide
  exact FloatClass.wellFormed_of_ofBits hBits

/-- The shortest decimal of a number is read as the number. -/
theorem reads_shortest (hb : b.WellFormed) : b.Reads (Decimal.shortest b).value :=
  (isNearest_iff hb).mp (Decimal.isShortest_shortest hb).isNearest

/-- A bound that is a power of ten, rounded, is a bound on the exponents of shortest decimals. -/
theorem le_iff_exponent_le (hb : b.WellFormed) (hc : c.WellFormed) {e : ℤ}
    (h : Decimal.shortest c = ⟨[1], e + 1⟩) :
    c.le b = true ↔ e ≤ (Decimal.shortest b).exponent := by
  have hNormal := (Decimal.isShortest_shortest hb).normal
  -- the other number is what the power of ten is read as
  have hPower : c.Reads (10 ^ e) := by
    have hReads := reads_shortest hc
    have hValue : Decimal.value ⟨[1], e + 1⟩ = 10 ^ e := by
      have hDigit : Nat.ofDigits 10 [1].reverse = 1 := rfl
      rw [Decimal.value, Decimal.coefficient, hDigit]
      simp
    rwa [h, hValue] at hReads
  rw [le_iff]
  unfold Decimal.exponent
  constructor
  · intro hLe
    by_contra! hLess
    -- A smaller exponent puts the decimal below the power, so both round to one number, with one exponent.
    have hBelow : (Decimal.shortest b).value ≤ 10 ^ e :=
      hNormal.value_lt.le.trans (zpow_le_zpow_right₀ (by norm_num) (by omega))
    have hSame := eq_of_value_eq hb hc
      (le_antisymm ((reads_shortest hb).value_le_value hb hc hPower hBelow) hLe)
    rw [hSame, h] at hLess
    simp at hLess
  · intro hLe
    have hAbove : 10 ^ e ≤ (Decimal.shortest b).value :=
      le_trans (zpow_le_zpow_right₀ (by norm_num) hLe) hNormal.le_value
    exact hPower.value_le_value hc hb (reads_shortest hb) hAbove

end Binary64

/-- A rewritten literal is in the notation of the web. -/
theorem webText_eq (negative : Bool) {b : Binary64} (hb : b.WellFormed) :
    webText negative b = signed negative (webNumber.write (Decimal.shortest b)) := by
  have hNormal := (Decimal.isShortest_shortest hb).normal
  have hLow := Binary64.le_iff_exponent_le hb Binary64.wellFormed_millionth (e := -6) (by decide)
  have hHigh := Binary64.le_iff_exponent_le hb Binary64.wellFormed_sextillion (e := 21) (by decide)
  unfold Decimal.exponent at hLow hHigh
  have hRange : (Binary64.millionth.le b && !Binary64.sextillion.le b) = true ↔
      webNumber.leastPositional ≤ (Decimal.shortest b).point - 1 ∧
        (Decimal.shortest b).point - 1 < webNumber.leastScientific := by
    rw [Bool.and_eq_true, Bool.not_eq_true', ← Bool.not_eq_true, hLow, hHigh, not_le]
    rfl
  unfold webText
  simp only
  by_cases hPositional : (Binary64.millionth.le b && !Binary64.sextillion.le b) = true
  · -- Whichever layout the literal has, it is read with the digits of the decimal, and zeros after them.
    obtain ⟨k, hRead⟩ := ScaledNumber.read_write literalNumber negative hNormal
    rw [if_pos hPositional, hRead, withoutFractionZeros_fixed negative hNormal, write,
      if_pos (hRange.mp hPositional)]
  · -- Far out the literal has an exponent as well, only filled to two digits.
    have hFar := fun h => hPositional (hRange.mpr h)
    have hLiteral : ¬ (literalNumber.leastPositional ≤ (Decimal.shortest b).point - 1 ∧
        (Decimal.shortest b).point - 1 < literalNumber.leastScientific) := fun h =>
      hFar ⟨le_trans (by decide) h.1, lt_trans h.2 (by decide)⟩
    have hSome : (Decimal.shortest b).point ≠ 1 := fun hOne => hFar (by rw [hOne]; decide)
    rw [if_neg hPositional, write, if_neg hLiteral, write, if_neg hFar,
      withoutExponentZeros_scientific _ negative hNormal hSome]

/-- The texts of two numbers tell them apart. -/
theorem webText_injective {negative negative' : Bool} {b b' : Binary64} (hb : b.WellFormed)
    (hb' : b'.WellFormed) (h : webText negative b = webText negative' b') :
    negative = negative' ∧ b = b' := by
  have hNormal := (Decimal.isShortest_shortest hb).normal
  have hNormal' := (Decimal.isShortest_shortest hb').normal
  -- the text tells the value that it denotes, with its sign
  have hValue : (if negative then -1 else 1) * (Decimal.shortest b).value =
      (if negative' then -1 else 1) * (Decimal.shortest b').value := by
    rw [← ScaledNumber.value_read_write webNumber negative hNormal,
      ← ScaledNumber.value_read_write webNumber negative' hNormal',
      ← webText_eq negative hb, ← webText_eq negative' hb', h]
  have hPos := hNormal.value_pos
  have hPos' := hNormal'.value_pos
  -- The sign of the number that is denoted is the sign in front of the text.
  have hSign : negative = negative' := by
    cases negative <;> cases negative' <;> simp at hValue ⊢ <;> linarith
  -- with one sign, the values of both decimals are one number
  subst hSign
  have hDecimal : (Decimal.shortest b).value = (Decimal.shortest b').value :=
    mul_left_cancel₀ (by split <;> norm_num) hValue
  refine ⟨rfl, (Binary64.reads_shortest hb).unique hb hb' ?_⟩
  rw [hDecimal]
  exact Binary64.reads_shortest hb'

/-- **The texts of numbers.** A finite number other than zero has one shortest decimal. Its text is that
decimal in the notation of the web, with a minus sign in front just for negative numbers; it denotes what
the literal of the number denotes; and no other such number has the same text. -/
theorem PatternValue.toText_finite {bits : ℕ} {negative : Bool} {b : Binary64}
    (h : FloatClass.ofBits bits = .finite negative b) :
    (∃! d : Decimal, d.IsShortest b) ∧
    (∀ d : Decimal, d.IsShortest b →
      (∃ body, (toText (.float (FloatClass.ofBits bits))).toList = signed negative body ∧
        body.head? ≠ some '-' ∧ d.WebNotation body) ∧
      (ScaledNumber.read (toText (.float (FloatClass.ofBits bits))).toList).value =
        (ScaledNumber.read (signed negative (literalNumber.write d))).value ∧
      (ScaledNumber.read (toText (.float (FloatClass.ofBits bits))).toList).value =
        (if negative then -1 else 1) * d.value) ∧
    ∀ (bits' : ℕ) (negative' : Bool) (b' : Binary64), FloatClass.ofBits bits' = .finite negative' b' →
      bits < 2 ^ 64 → bits' < 2 ^ 64 → bits' ≠ bits →
      toText (.float (FloatClass.ofBits bits')) ≠ toText (.float (FloatClass.ofBits bits)) := by
  have hb := FloatClass.wellFormed_of_ofBits h
  have hText : ∀ {n : ℕ} {sign : Bool} {c : Binary64}, FloatClass.ofBits n = .finite sign c →
      (toText (.float (FloatClass.ofBits n))).toList = webText sign c := fun hFinite => by
    rw [hFinite]
    exact String.toList_ofList
  refine ⟨⟨Decimal.shortest b, Decimal.isShortest_shortest hb, fun d hd => hd.eq_shortest hb⟩, ?_, ?_⟩
  · intro d hShortest
    obtain rfl := hShortest.eq_shortest hb
    have hNormal := hShortest.normal
    rw [hText h, webText_eq negative hb, ScaledNumber.value_read_write _ _ hNormal,
      ScaledNumber.value_read_write _ _ hNormal]
    exact ⟨⟨_, rfl, hNormal.webNotation_write.head?_ne hNormal, hNormal.webNotation_write⟩, rfl, rfl⟩
  · intro bits' negative' b' h' hBits hBits' hOther hSame
    have hb' := FloatClass.wellFormed_of_ofBits h'
    have hWeb : webText negative' b' = webText negative b := by rw [← hText h', ← hText h, hSame]
    obtain ⟨rfl, rfl⟩ := webText_injective hb' hb hWeb
    exact hOther (FloatClass.ofBits_injective hBits' hBits h' h)

/-- Twelve and thirty-four hundredths, and the same number below zero. -/
theorem PatternValue.toText_finite_of_hundredths :
    (⟨[1, 2, 3, 4], 2⟩ : Decimal).IsShortest ⟨6946802425218990, -49, false⟩ ∧
      (∃ body, (toText (.float (FloatClass.ofBits 0x4028AE147AE147AE))).toList = signed false body ∧
        body.head? ≠ some '-' ∧ (⟨[1, 2, 3, 4], 2⟩ : Decimal).WebNotation body) ∧
      toText (.float (FloatClass.ofBits 0xC028AE147AE147AE)) ≠
        toText (.float (FloatClass.ofBits 0x4028AE147AE147AE)) := by
  have hBits : FloatClass.ofBits 0x4028AE147AE147AE = .finite false ⟨6946802425218990, -49, false⟩ := by
    decide
  obtain ⟨⟨d, hShortest, -⟩, hTexts, hApart⟩ := toText_finite hBits
  have hDecimal : d = ⟨[1, 2, 3, 4], 2⟩ :=
    (hShortest.eq_shortest (FloatClass.wellFormed_of_ofBits hBits)).trans (by decide)
  subst hDecimal
  exact ⟨hShortest, (hTexts _ hShortest).1,
    hApart 0xC028AE147AE147AE true ⟨6946802425218990, -49, false⟩ (by decide) (by decide) (by decide)
      (by decide)⟩

end MessagePattern
