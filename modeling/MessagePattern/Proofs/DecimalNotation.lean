import Mathlib.Tactic.FieldSimp
import MessagePattern.Decimal.WebText
import MessagePattern.Proofs.DecimalValue
import MessagePattern.Proofs.Lexemes

/-!
# Decimals read back

A normal decimal that is written in some format is read again with its own digits, and with zeros after them
where the format has added some. The zeros after the digits change the exponent by as much, so the number
that is read is the one that was written, whatever the format. A number that is written without an exponent
has its point where the decimal has it; and as the last digit of the decimal is not zero, the zeros cut off
the end of its fraction are those that were added.

## Results

* `ScaledNumber.read_write` — a written decimal read back.
* `ScaledNumber.value_read_write` — what is read is the number that was written.
* `withoutFractionZeros_fixed` — a number written without an exponent and trimmed is in the notation of the
  web.
* `withoutExponentZeros_scientific` — so is a literal with its exponent trimmed.
-/

namespace MessagePattern

/-! ## Characters -/

section Cuts

variable {c : Char} {front rest : List Char}

/-- A text is cut at a character that is not in its front. -/
theorem cut_at (hFront : c ∉ front) (hRest : ∀ x ∈ rest.head?, x = c) :
    (front ++ rest).takeWhile (· != c) = front ∧ (front ++ rest).dropWhile (· != c) = rest := by
  have hRun : Declared.Run (· != c) (front ++ rest) front rest :=
    ⟨rfl, fun x hx => bne_iff_ne.mpr fun hEq => hFront (hEq ▸ hx),
      fun x hx => by rw [hRest x hx]; exact bne_self_eq_false c⟩
  obtain ⟨hTake, hDrop⟩ := Declared.run_iff.mp hRun
  exact ⟨hTake.symm, hDrop.symm⟩

/-- What is taken away in front of a text is all of one character, and stops at another. -/
theorem dropWhile_replicate_append (count : ℕ) (hRest : rest.head? ≠ some c) :
    (List.replicate count c ++ rest).dropWhile (· == c) = rest := by
  have hRun : Declared.Run (· == c) (List.replicate count c ++ rest) (List.replicate count c) rest :=
    ⟨rfl, fun x hx => beq_iff_eq.mpr (List.eq_of_mem_replicate hx),
      fun x hx => beq_eq_false_iff_ne.mpr fun hEq => hRest (hEq ▸ hx)⟩
  exact (Declared.run_iff.mp hRun).2.symm

/-- A text that does not begin with the character stays as it is. -/
theorem dropWhile_eq_self (hRest : rest.head? ≠ some c) : rest.dropWhile (· == c) = rest :=
  dropWhile_replicate_append 0 hRest

end Cuts

namespace DecimalFormat

/-- Numbers below ten are written as digits. -/
theorem isDigit_of_mem_digitChars {digits : List ℕ} (h : ∀ x ∈ digits, x < 10) {c : Char}
    (hc : c ∈ digitChars digits) : c.isDigit = true := by
  obtain ⟨x, hx, rfl⟩ := List.mem_map.mp hc
  rw [Nat.isDigit_digitChar]
  exact decide_eq_true (h x hx)

/-- No character but a digit is among written digits. -/
theorem not_mem_digitChars {digits : List ℕ} (h : ∀ x ∈ digits, x < 10) {c : Char}
    (hc : c.isDigit = false) : c ∉ digitChars digits := fun hMem => by
  rw [isDigit_of_mem_digitChars h hMem] at hc
  cases hc

/-- The digits of a normal decimal do not begin with a zero. -/
theorem head?_digitChars {d : Decimal} (h : d.Normal) : (digitChars d.digits).head? ≠ some '0' := by
  rw [digitChars, List.head?_map]
  intro hZero
  obtain ⟨x, hx, hChar⟩ := Option.map_eq_some_iff.mp hZero
  exact h.first_ne (by rw [hx, Nat.digitChar_eq_zero.mp hChar])

/-- The digits of a normal decimal do not end with a zero. -/
theorem getLast?_digitChars {d : Decimal} (h : d.Normal) :
    (digitChars d.digits).getLast? ≠ some '0' := by
  rw [digitChars, List.getLast?_map]
  intro hZero
  obtain ⟨x, hx, hChar⟩ := Option.map_eq_some_iff.mp hZero
  exact h.last_ne (by rw [hx, Nat.digitChar_eq_zero.mp hChar])

/-- The digits of a normal decimal are digits. -/
theorem isDigit_digitChars {d : Decimal} (h : d.Normal) :
    ∀ c ∈ digitChars d.digits, c.isDigit = true := fun _ hc => isDigit_of_mem_digitChars h.lt_ten hc

theorem isDigit_zeros (count : ℕ) : ∀ c ∈ List.replicate count '0', c.isDigit = true := fun c hc => by
  rw [List.eq_of_mem_replicate hc]
  decide

theorem length_digitChars (digits : List ℕ) : (digitChars digits).length = digits.length :=
  List.length_map _

/-- A normal decimal has a digit. -/
theorem digitChars_ne_nil {d : Decimal} (h : d.Normal) : digitChars d.digits ≠ [] :=
  fun hNil => h.ne_nil (List.map_eq_nil_iff.mp hNil)

/-- Without the zeros in front of it, a numeral starts with its first digit. -/
theorem dropWhile_digitChars {d : Decimal} (h : d.Normal) (count : ℕ) (rest : List Char) :
    (List.replicate count '0' ++ (digitChars d.digits ++ rest)).dropWhile (· == '0') =
      digitChars d.digits ++ rest := by
  refine dropWhile_replicate_append count ?_
  rw [List.head?_append_of_ne_nil _ (digitChars_ne_nil h)]
  exact head?_digitChars h

/-- Zeros after a numeral scale what it denotes. -/
theorem value_digitChars {digits : List ℕ} (h : ∀ x ∈ digits, x < 10) (count : ℕ) :
    Numeral.value (digitChars digits ++ List.replicate count '0') =
      Nat.ofDigits 10 digits.reverse * 10 ^ count := by
  have hDigits : (digitChars digits).map (fun c => c.toNat - '0'.toNat) = digits := by
    rw [digitChars, List.map_map]
    refine (List.map_congr_left fun x hx => ?_).trans (List.map_id _)
    exact Nat.toNat_digitChar_sub_48_of_lt_ten (h x hx)
  rw [Reader.value_eq_ofDigits, List.reverse_append, List.map_append, List.reverse_replicate,
    List.map_replicate, List.map_reverse, hDigits, Nat.ofDigits_append,
    show '0'.toNat - '0'.toNat = 0 from rfl, Nat.ofDigits_replicate_zero, List.length_replicate]
  ring

/-- Zeros in front of a numeral do not change what it denotes. -/
theorem value_toDigits (count n : ℕ) :
    Numeral.value (List.replicate count '0' ++ Nat.toDigits 10 n) = n := by
  have hZeros : (List.replicate count '0').foldl (fun n c => 10 * n + (c.toNat - '0'.toNat)) 0 = 0 := by
    induction count with
    | zero => rfl
    | succ count ih => exact ih
  rw [Numeral.value, List.foldl_append, hZeros]
  exact Nat.ofDigitChars_toDigits (by decide) (by decide)

/-! ## Layouts -/

variable {d : Decimal}

/-- Below one, zeros stand between the point and the digits. -/
theorem positional_of_nonpos (format : DecimalFormat) (h : d.point ≤ 0) :
    format.positional d =
      '0' :: '.' :: (List.replicate (-d.point).toNat '0' ++ digitChars d.digits) := by
  rw [positional, if_pos h]

/-- With fewer digits in front of the point than there are, the others stand behind it. -/
theorem positional_of_lt (format : DecimalFormat) (hPos : 0 < d.point)
    (hLt : d.point < d.digits.length) :
    format.positional d = (digitChars d.digits).take d.point.toNat ++
      '.' :: (digitChars d.digits).drop d.point.toNat := by
  have hFraction : digitChars (d.digits.drop d.point.toNat) =
      (digitChars d.digits).drop d.point.toNat := List.map_drop
  -- no zeros are needed behind the digits
  have hNone : d.point.toNat - d.digits.length = 0 := by omega
  obtain ⟨c, t, hSome⟩ : ∃ c t, (digitChars d.digits).drop d.point.toNat = c :: t :=
    List.exists_cons_of_length_pos (by rw [List.length_drop, digitChars, List.length_map]; omega)
  rw [positional, if_neg (by omega)]
  simp only [hFraction, hSome, hNone, List.replicate_zero, List.append_nil]
  rw [digitChars, List.map_take]
  rfl

/-- With no digits behind the point, zeros reach up to it. -/
theorem positional_of_le (format : DecimalFormat) (hPos : 0 < d.point)
    (hLe : (d.digits.length : ℤ) ≤ d.point) :
    format.positional d = digitChars d.digits ++
      List.replicate (d.point - d.digits.length).toNat '0' ++
      (if format.pointZero then ['.', '0'] else []) := by
  have hWhole : d.digits.length ≤ d.point.toNat := by omega
  have hZeros : d.point.toNat - d.digits.length = (d.point - d.digits.length).toNat := by omega
  rw [positional, if_neg (by omega)]
  simp only [List.drop_eq_nil_of_le hWhole, List.take_of_length_le hWhole, hZeros]
  cases format.pointZero with
  | true => rfl
  | false => exact (List.append_nil _).symm

/-- The first digit, a point and the others if there are any, and the exponent. -/
theorem scientific_eq (format : DecimalFormat) {first : Char} {others : List Char}
    (h : digitChars d.digits = first :: others) :
    format.scientific d = [first] ++ (if others = [] then [] else '.' :: others) ++
      'e' :: (if d.point - 1 < 0 then '-' else '+') ::
        (List.replicate (format.exponentDigits - (Nat.toDigits 10 (d.point - 1).natAbs).length) '0' ++
          Nat.toDigits 10 (d.point - 1).natAbs) := by
  simp only [scientific, h]
  cases others with
  | nil => rfl
  | cons c t => rfl

end DecimalFormat

namespace ScaledNumber

/-- A text is read from its parts: digits, maybe a point and digits after it, and maybe an exponent. -/
theorem readUnsigned_eq {whole point power : List Char} (negative : Bool)
    (hMantissa : 'e' ∉ whole ++ point) (hWhole : '.' ∉ whole)
    (hPoint : ∀ x ∈ point.head?, x = '.') (hPower : ∀ x ∈ power.head?, x = 'e') :
    readUnsigned negative (whole ++ point ++ power) =
      ⟨negative, (whole ++ point.drop 1).dropWhile (· == '0'),
        readExponent (power.drop 1) - (point.drop 1).length⟩ := by
  obtain ⟨hTake, hDrop⟩ := cut_at hMantissa hPower
  obtain ⟨hTake', hDrop'⟩ := cut_at hWhole hPoint
  simp only [readUnsigned, hTake, hDrop, hTake', hDrop']

/-- A sign in front of a text is read as one. -/
theorem read_signed (negative : Bool) {text : List Char} (h : text.head? ≠ some '-') :
    read (signed negative text) = readUnsigned negative text := by
  cases negative with
  | true => rfl
  | false =>
    cases text with
    | nil => rfl
    | cons c t =>
      have hOther : c ≠ '-' := fun hEq => h (by rw [hEq]; rfl)
      simp [signed, read, hOther]

/-- The number that a text denotes. -/
def value (x : ScaledNumber) : ℚ :=
  (if x.negative then -1 else 1) * (Numeral.value x.digits * 10 ^ x.exponent)

open DecimalFormat

variable {d : Decimal}

/-- A text in parts is read part by part: the digits without zeros in front, and the exponent less the
number of digits behind the point. -/
theorem read_of_parts (negative : Bool) (whole point power : List Char) (hSome : whole ≠ [])
    (hWhole : ∀ c ∈ whole, c.isDigit = true)
    (hPoint : ∀ c ∈ point.head?, c = '.') (hFraction : ∀ c ∈ point.drop 1, c.isDigit = true)
    (hPower : ∀ c ∈ power.head?, c = 'e') :
    read (signed negative (whole ++ point ++ power)) =
      ⟨negative, (whole ++ point.drop 1).dropWhile (· == '0'),
        readExponent (power.drop 1) - (point.drop 1).length⟩ := by
  have hNot : ∀ {c : Char}, c.isDigit = false → c ∉ whole := fun hc hMem => by
    rw [hWhole _ hMem] at hc
    cases hc
  rw [read_signed, readUnsigned_eq negative ?_ (hNot (by decide)) hPoint hPower]
  · -- an exponent is marked only where the power begins, as there are but digits before
    rw [List.mem_append, not_or]
    refine ⟨hNot (by decide), fun hMem => ?_⟩
    cases point with
    | nil => cases hMem
    | cons c t =>
      obtain rfl : c = '.' := hPoint c rfl
      rcases List.mem_cons.mp hMem with hEq | hDigit
      · cases hEq
      · exact absurd (hFraction _ hDigit) (by decide)
  · -- a text that begins with a digit has no sign
    obtain ⟨c, t, rfl⟩ := List.exists_cons_of_ne_nil hSome
    intro hMinus
    exact hNot (by decide) (by simp_all : '-' ∈ c :: t)

@[simp] theorem readExponent_nil : readExponent [] = 0 := rfl

/-! ## Reading what was written -/

section Read

variable (format : DecimalFormat) (negative : Bool) (h : d.Normal)
include h

/-- What is written below one is read back with its own digits. -/
theorem read_positional_of_nonpos (hPoint : d.point ≤ 0) :
    read (signed negative (format.positional d)) =
      ⟨negative, digitChars d.digits, d.point - d.digits.length⟩ := by
  have hParts := read_of_parts negative ['0']
    ('.' :: (List.replicate (-d.point).toNat '0' ++ digitChars d.digits)) []
    (by simp) (by simp) (by simp)
    (List.forall_mem_append.mpr ⟨isDigit_zeros _, isDigit_digitChars h⟩) (by simp)
  have hDigits := dropWhile_digitChars h ((-d.point).toNat + 1) []
  rw [List.append_nil] at hParts hDigits
  rw [positional_of_nonpos format hPoint]
  refine hParts.trans (congrArg₂ _ hDigits ?_)
  simp only [List.drop_succ_cons, List.drop_zero, List.drop_nil, readExponent_nil, List.length_append,
    List.length_replicate, length_digitChars]
  omega

/-- What is written with digits on both sides of the point is read back with them. -/
theorem read_positional_of_lt (hPos : 0 < d.point) (hLt : d.point < d.digits.length) :
    read (signed negative (format.positional d)) =
      ⟨negative, digitChars d.digits, d.point - d.digits.length⟩ := by
  have hParts := read_of_parts negative ((digitChars d.digits).take d.point.toNat)
    ('.' :: (digitChars d.digits).drop d.point.toNat) []
    (by simp [digitChars_ne_nil h]; omega)
    (fun c hc => isDigit_digitChars h c (List.mem_of_mem_take hc)) (by simp)
    (fun c hc => isDigit_digitChars h c (List.mem_of_mem_drop hc)) (by simp)
  have hDigits := dropWhile_digitChars h 0 []
  rw [List.append_nil] at hParts hDigits
  rw [positional_of_lt format hPos hLt]
  simp only [List.drop_succ_cons, List.drop_zero, List.drop_nil, readExponent_nil, List.length_drop,
    length_digitChars, List.take_append_drop] at hParts
  refine hParts.trans (congrArg₂ _ hDigits ?_)
  omega

/-- What is written with all its digits in front of the point is read back with zeros after them. -/
theorem read_positional_of_le (hPos : 0 < d.point) (hLe : (d.digits.length : ℤ) ≤ d.point) :
    ∃ k : ℕ, read (signed negative (format.positional d)) =
      ⟨negative, digitChars d.digits ++ List.replicate k '0', d.point - d.digits.length - k⟩ := by
  -- Some formats end whole numbers with a point and a zero, which is read as one more digit.
  set point := if format.pointZero then ['.', '0'] else [] with hPoint
  obtain ⟨added, hAdded⟩ : ∃ added, point.drop 1 = List.replicate added '0' := by
    rw [hPoint]
    split
    · exact ⟨1, rfl⟩
    · exact ⟨0, rfl⟩
  have hParts := read_of_parts negative
    (digitChars d.digits ++ List.replicate (d.point - d.digits.length).toNat '0') point []
    (List.append_ne_nil_of_left_ne_nil (digitChars_ne_nil h) _)
    (List.forall_mem_append.mpr ⟨isDigit_digitChars h, isDigit_zeros _⟩)
    (by rw [hPoint]; split <;> simp) (by rw [hAdded]; exact isDigit_zeros _) (by simp)
  rw [List.append_nil, hAdded] at hParts
  rw [positional_of_le format hPos hLe]
  refine ⟨(d.point - d.digits.length).toNat + added, hParts.trans (congrArg₂ _ ?_ ?_)⟩
  · rw [List.append_assoc, List.replicate_append_replicate]
    exact dropWhile_digitChars h 0 _
  · simp only [List.drop_nil, readExponent_nil, List.length_replicate]
    omega

/-- What is written with an exponent is read back with its own digits. -/
theorem read_scientific :
    read (signed negative (format.scientific d)) =
      ⟨negative, digitChars d.digits, d.point - d.digits.length⟩ := by
  obtain ⟨first, others, hSome⟩ := List.exists_cons_of_ne_nil (digitChars_ne_nil h)
  have hDigit := isDigit_digitChars h
  rw [hSome] at hDigit
  set power := Nat.toDigits 10 (d.point - 1).natAbs with hPower
  -- zeros in front of an exponent do not change it, and its sign is read first
  have hExponent : ∀ count, readExponent ((if d.point - 1 < 0 then '-' else '+') ::
      (List.replicate count '0' ++ power)) = d.point - 1 := by
    intro count
    split
    · simp only [readExponent, hPower, value_toDigits]
      omega
    · simp only [readExponent, hPower, value_toDigits]
      omega
  -- behind the point are the other digits, if there are any
  have hDrop : (if others = [] then [] else '.' :: others).drop 1 = others := by
    split
    case isTrue hNone => rw [hNone]; rfl
    case isFalse => rfl
  -- one digit, maybe a point and the others, and the exponent
  have hParts := read_of_parts negative [first] (if others = [] then [] else '.' :: others)
    ('e' :: (if d.point - 1 < 0 then '-' else '+') ::
      (List.replicate (format.exponentDigits - power.length) '0' ++ power))
    (by simp) (by simpa using hDigit first (by simp)) (by split <;> simp)
    (by rw [hDrop]; exact fun c hc => hDigit c (List.mem_cons_of_mem _ hc)) (by simp)
  have hDigits := dropWhile_digitChars h 0 []
  rw [List.append_nil, hSome] at hDigits
  rw [scientific_eq format hSome]
  refine hParts.trans ?_
  rw [hDrop, List.drop_succ_cons, List.drop_zero, hExponent, hSome]
  refine congrArg₂ _ hDigits ?_
  have hLength := length_digitChars d.digits
  rw [hSome, List.length_cons] at hLength
  omega

/-- A written decimal is read with its own digits, and maybe with zeros after them. -/
theorem read_write :
    ∃ k : ℕ, read (signed negative (format.write d)) =
      ⟨negative, digitChars d.digits ++ List.replicate k '0', d.point - d.digits.length - k⟩ := by
  rw [write]
  split
  · rcases le_or_gt d.point 0 with hBelow | hPos
    · exact ⟨0, by simpa using read_positional_of_nonpos format negative h hBelow⟩
    · rcases lt_or_ge d.point d.digits.length with hLt | hLe
      · exact ⟨0, by simpa using read_positional_of_lt format negative h hPos hLt⟩
      · exact read_positional_of_le format negative h hPos hLe
  · exact ⟨0, by simpa using read_scientific format negative h⟩

/-- What is read is the number that was written. -/
theorem value_read_write :
    (read (signed negative (format.write d))).value = (if negative then -1 else 1) * d.value := by
  obtain ⟨k, hRead⟩ := read_write format negative h
  rw [hRead, value, value_digitChars h.lt_ten, Decimal.value, Decimal.coefficient]
  congr 1
  push_cast
  rw [zpow_sub₀ (by norm_num), zpow_natCast]
  field_simp

end Read

end ScaledNumber

/-! ## Trimming -/

theorem signed_append (negative : Bool) (front rest : List Char) :
    signed negative (front ++ rest) = signed negative front ++ rest := by
  cases negative <;> rfl

/-- A sign adds nothing but a minus. -/
theorem not_mem_signed {c : Char} (hc : c ≠ '-') (negative : Bool) {text : List Char} (h : c ∉ text) :
    c ∉ signed negative text := by
  cases negative with
  | true => simp [signed, hc, h]
  | false => exact h

/-- The zeros at the end of a fraction are cut off, and with the last digit the point. -/
theorem withoutFractionZeros_eq {front fraction : List Char} (count : ℕ) (hFront : '.' ∉ front)
    (hFraction : '.' ∉ fraction) (hLast : fraction.getLast? ≠ some '0') :
    withoutFractionZeros (front ++ '.' :: (fraction ++ List.replicate count '0')) =
      if fraction = [] then front else front ++ '.' :: fraction := by
  have hReverse : (front ++ '.' :: (fraction ++ List.replicate count '0')).reverse =
      List.replicate count '0' ++ (fraction.reverse ++ '.' :: front.reverse) := by
    simp
  -- Seen from the end, the zeros go first; then the point goes, if it is next.
  rw [withoutFractionZeros, if_pos (by simp), hReverse]
  by_cases hNone : fraction = []
  · subst hNone
    -- without other digits the point is next, and in front of it there is no other
    have hRest : front.reverse.head? ≠ some '.' := fun hDot =>
      hFront (List.mem_reverse.mp (List.mem_of_head? hDot))
    rw [dropWhile_replicate_append count (by simp), if_pos rfl]
    have hPoint := dropWhile_replicate_append 1 hRest
    exact (congrArg List.reverse hPoint).trans (List.reverse_reverse front)
  · -- without digits behind the point the point goes too, and otherwise the last digit stops the cut
    have hSome : fraction.reverse ≠ [] := List.reverse_ne_nil_iff.mpr hNone
    have hZero : (fraction.reverse ++ '.' :: front.reverse).head? ≠ some '0' := by
      rwa [List.head?_append_of_ne_nil _ hSome, List.head?_reverse]
    have hDot : (fraction.reverse ++ '.' :: front.reverse).head? ≠ some '.' := by
      rw [List.head?_append_of_ne_nil _ hSome]
      exact fun hDot => hFraction (List.mem_reverse.mp (List.mem_of_head? hDot))
    rw [dropWhile_replicate_append count hZero, dropWhile_eq_self hDot, if_neg hNone]
    simp

section Trimmed

open DecimalFormat

variable {d : Decimal} (negative : Bool) (h : d.Normal) (k : ℕ)
include h

theorem point_not_mem_digitChars : '.' ∉ digitChars d.digits :=
  not_mem_digitChars h.lt_ten (by decide)

/-- Behind a point in front of all digits, the zeros after them are cut off. -/
theorem withoutFractionZeros_below (count : ℕ) :
    withoutFractionZeros (signed negative ('0' :: '.' ::
      (List.replicate count '0' ++ (digitChars d.digits ++ List.replicate k '0')))) =
      signed negative ('0' :: '.' :: (List.replicate count '0' ++ digitChars d.digits)) := by
  have hSplit : '0' :: '.' :: (List.replicate count '0' ++
      (digitChars d.digits ++ List.replicate k '0')) =
      ['0'] ++ '.' :: ((List.replicate count '0' ++ digitChars d.digits) ++ List.replicate k '0') := by
    simp
  rw [hSplit, signed_append, withoutFractionZeros_eq k, if_neg]
  · exact (signed_append negative ['0'] _).symm
  · exact List.append_ne_nil_of_right_ne_nil _ (digitChars_ne_nil h)
  · exact not_mem_signed (by decide) negative (by decide)
  · exact List.not_mem_append (by simp) (point_not_mem_digitChars h)
  · rw [List.getLast?_append_of_ne_nil _ (digitChars_ne_nil h)]
    exact getLast?_digitChars h

/-- Behind a point among the digits, the zeros after them are cut off. -/
theorem withoutFractionZeros_among {n : ℕ} (hLt : n < d.digits.length) :
    withoutFractionZeros (signed negative
      ((digitChars d.digits ++ List.replicate k '0').take n ++
        '.' :: (digitChars d.digits ++ List.replicate k '0').drop n)) =
      signed negative ((digitChars d.digits).take n ++ '.' :: (digitChars d.digits).drop n) := by
  have hNoPoint := point_not_mem_digitChars h
  -- the point stands among the digits, so some of them are behind it
  have hInside : n < (digitChars d.digits).length := by rwa [length_digitChars]
  have hRest : (digitChars d.digits).drop n ≠ [] := by
    rw [Ne, List.drop_eq_nil_iff]
    omega
  rw [List.take_append_of_le_length hInside.le, List.drop_append_of_le_length hInside.le,
    signed_append, withoutFractionZeros_eq k, if_neg hRest]
  · exact (signed_append negative _ _).symm
  · exact not_mem_signed (by decide) negative fun hMem => hNoPoint (List.mem_of_mem_take hMem)
  · exact fun hMem => hNoPoint (List.mem_of_mem_drop hMem)
  · rw [List.getLast?_drop, if_neg (by omega)]
    exact getLast?_digitChars h

/-- Behind a point after the digits there are only zeros, and the point is cut off with them. The zeros in
front of it count. -/
theorem withoutFractionZeros_beyond {count : ℕ} (hLe : count ≤ k) :
    withoutFractionZeros (signed negative
      ((digitChars d.digits ++ List.replicate k '0').take (d.digits.length + count) ++
        '.' :: (digitChars d.digits ++ List.replicate k '0').drop (d.digits.length + count))) =
      signed negative (digitChars d.digits ++ List.replicate count '0') := by
  have hWhole : '.' ∉ signed negative (digitChars d.digits ++ List.replicate count '0') :=
    not_mem_signed (by decide) negative
      (List.not_mem_append (point_not_mem_digitChars h) (by simp))
  have hTrim := withoutFractionZeros_eq (k - count) hWhole List.not_mem_nil (by simp)
  rw [← length_digitChars, List.take_length_add_append, List.drop_length_add_append,
    List.take_replicate, List.drop_replicate, min_eq_left hLe, signed_append]
  exact hTrim.trans (if_pos rfl)

/-- However many zeros were read after the digits of a decimal, without an exponent and trimmed it is in the
notation of the web. -/
theorem withoutFractionZeros_fixed :
    withoutFractionZeros (ScaledNumber.fixed
      ⟨negative, digitChars d.digits ++ List.replicate k '0', d.point - d.digits.length - k⟩) =
      signed negative (webNumber.positional d) := by
  have hSome := h.length_pos
  have hPoint : ((digitChars d.digits ++ List.replicate k '0').length : ℤ) +
      (d.point - d.digits.length - k) = d.point := by
    rw [List.length_append, length_digitChars, List.length_replicate]
    push_cast
    ring
  simp only [ScaledNumber.fixed, hPoint]
  split
  case isTrue hWhole =>
    -- There is no point, so nothing is cut off.
    have hZeros : k + (d.point - d.digits.length - k).toNat = (d.point - d.digits.length).toNat := by
      omega
    rw [positional_of_le _ (by omega) (by omega), List.append_assoc,
      List.replicate_append_replicate, hZeros, withoutFractionZeros, if_neg]
    · exact congrArg _ (List.append_nil _).symm
    · exact not_mem_signed (by decide) negative
        (List.not_mem_append (point_not_mem_digitChars h) (by simp))
  case isFalse hFraction =>
    split
    case isTrue hBelow =>
      rw [positional_of_nonpos _ hBelow]
      exact withoutFractionZeros_below negative h k _
    case isFalse hAbove =>
      -- the zeros begin behind the last digit, or in front of the point already
      rcases lt_or_ge d.point d.digits.length with hLt | hLe
      · rw [positional_of_lt _ (by omega) hLt]
        exact withoutFractionZeros_among negative h k (by omega)
      · obtain ⟨count, hCount⟩ : ∃ count : ℕ, d.point.toNat = d.digits.length + count :=
          ⟨d.point.toNat - d.digits.length, by omega⟩
        have hZeros : (d.point - d.digits.length).toNat = count := by omega
        rw [positional_of_le _ (by omega) hLe, hCount, hZeros]
        refine (withoutFractionZeros_beyond negative h k (by omega)).trans ?_
        exact congrArg _ (List.append_nil _).symm

end Trimmed

/-- The zeros in front of an exponent are cut off. -/
theorem withoutExponentZeros_eq {mantissa power : List Char} (sign : Char) (count : ℕ)
    (hMantissa : 'e' ∉ mantissa) (hPower : power.head? ≠ some '0') :
    withoutExponentZeros (mantissa ++ 'e' :: sign :: (List.replicate count '0' ++ power)) =
      mantissa ++ 'e' :: sign :: power := by
  have hMark : ∀ c ∈ ('e' :: sign :: (List.replicate count '0' ++ power)).head?, c = 'e' := by simp
  obtain ⟨hTake, hDrop⟩ := cut_at hMantissa hMark
  simp only [withoutExponentZeros, hTake, hDrop, dropWhile_replicate_append count hPower]

/-- A number that is not zero is written without zeros in front. -/
theorem head?_toDigits {n : ℕ} (hn : n ≠ 0) : (Nat.toDigits 10 n).head? ≠ some '0' := by
  have hSome : Nat.digits 10 n ≠ [] := Nat.digits_ne_nil_iff_ne_zero.mpr hn
  rw [Decimal.toDigits_eq hn, List.head?_map, List.head?_reverse, List.getLast?_eq_some_getLast hSome]
  simpa using Nat.getLast_digit_ne_zero 10 hn

open DecimalFormat in
/-- The exponents of the web are not filled. -/
theorem webNumber_scientific_eq {d : Decimal} {first : Char} {others : List Char}
    (h : digitChars d.digits = first :: others) :
    webNumber.scientific d = [first] ++ (if others = [] then [] else '.' :: others) ++
      'e' :: (if d.point - 1 < 0 then '-' else '+') :: Nat.toDigits 10 (d.point - 1).natAbs := by
  have hPos : 0 < (Nat.toDigits 10 (d.point - 1).natAbs).length := Nat.length_toDigits_pos
  have hFilled : webNumber.exponentDigits - (Nat.toDigits 10 (d.point - 1).natAbs).length = 0 :=
    Nat.sub_eq_zero_of_le hPos
  rw [scientific_eq webNumber h, hFilled]
  rfl

open DecimalFormat in
/-- However far an exponent is filled with zeros, trimmed it is in the notation of the web. -/
theorem withoutExponentZeros_scientific (format : DecimalFormat) {d : Decimal} (negative : Bool)
    (h : d.Normal) (hPoint : d.point ≠ 1) :
    withoutExponentZeros (signed negative (format.scientific d)) =
      signed negative (webNumber.scientific d) := by
  obtain ⟨first, others, hSome⟩ := List.exists_cons_of_ne_nil (digitChars_ne_nil h)
  have hNoMark : 'e' ∉ first :: others := hSome ▸ not_mem_digitChars h.lt_ten (by decide)
  have hMantissa : 'e' ∉ signed negative ([first] ++ if others = [] then [] else '.' :: others) := by
    refine not_mem_signed (by decide) negative ?_
    rw [List.mem_cons, not_or] at hNoMark
    split <;> simp [hNoMark.1, hNoMark.2]
  rw [scientific_eq format hSome, webNumber_scientific_eq hSome,
    signed_append negative ([first] ++ _), signed_append negative ([first] ++ _),
    withoutExponentZeros_eq _ _ hMantissa (head?_toDigits (by omega))]

end MessagePattern
