import MessagePattern.Decimal.Shortest

/-!
# Decimal notation

How a decimal is laid out: positionally while the point is not too far from the digits, and otherwise
with an exponent. All decisions are fields of one record.

* `DecimalFormat` — the decisions;
* `DecimalFormat.write` — a decimal in a format;
* `literalNumber`, `webNumber` — the two formats in use.
-/

namespace MessagePattern

/-- Where a format writes decimals positionally, and what it adds to their digits. An exponent always has
a sign, and a number below one has a zero before its point. -/
structure DecimalFormat where
  /-- The least exponent of the first digit at which numbers are written positionally. -/
  leastPositional : Int
  /-- The least exponent of the first digit at which numbers are no longer written positionally. -/
  leastScientific : Int
  /-- Whether a number without a fraction has a point and a zero after it where it is written
  positionally. -/
  pointZero : Bool
  /-- The number of digits up to which an exponent is filled with zeros in front. -/
  exponentDigits : Nat

namespace DecimalFormat

/-- Digits as characters. -/
def digitChars (digits : List Nat) : List Char :=
  digits.map Nat.digitChar

/-- A decimal without an exponent. -/
def positional (format : DecimalFormat) (d : Decimal) : List Char :=
  if d.point ≤ 0 then
    '0' :: '.' :: (List.replicate (-d.point).toNat '0' ++ digitChars d.digits)
  else
    let whole := d.point.toNat
    let front := digitChars (d.digits.take whole) ++ List.replicate (whole - d.digits.length) '0'
    match digitChars (d.digits.drop whole) with
    | [] => if format.pointZero then front ++ ['.', '0'] else front
    | fraction => front ++ ('.' :: fraction)

/-- A decimal with one digit before the point, and an exponent. -/
def scientific (format : DecimalFormat) (d : Decimal) : List Char :=
  let exponent := d.point - 1
  let power := Nat.toDigits 10 exponent.natAbs
  let mantissa := match digitChars d.digits with
    | first :: second :: more => first :: '.' :: second :: more
    | few => few
  mantissa ++ ('e' :: (if exponent < 0 then '-' else '+') ::
    (List.replicate (format.exponentDigits - power.length) '0' ++ power))

/-- A decimal in a format. -/
def write (format : DecimalFormat) (d : Decimal) : List Char :=
  if format.leastPositional ≤ d.point - 1 ∧ d.point - 1 < format.leastScientific then
    format.positional d
  else format.scientific d

end DecimalFormat

/-- The notation of number literals: positional from a ten-thousandth up to, but not including, ten to the
sixteenth, always with a fraction, and exponents of at least two digits. -/
def literalNumber : DecimalFormat := ⟨-4, 16, true, 2⟩

/-- The number notation of the web: positional from a millionth up to, but not including, ten to the
twenty-first, and nothing that could be left out. -/
def webNumber : DecimalFormat := ⟨-6, 21, false, 1⟩

example : literalNumber.write ⟨[3], 1⟩ = "3.0".toList := by decide
example : literalNumber.write ⟨[1, 5], -5⟩ = "1.5e-06".toList := by decide
example : webNumber.write ⟨[1, 5], 1⟩ = "1.5".toList := by decide
example : webNumber.write ⟨[1], 22⟩ = "1e+21".toList := by decide
example : webNumber.write ⟨[1], -5⟩ = "0.000001".toList := by decide

end MessagePattern
