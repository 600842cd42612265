import MessagePattern.Decimal.Notation
import MessagePattern.Numeral

/-!
# Literals in the notation of the web

The text of a floating point number starts out as its literal. Between a millionth and ten to the
twenty-first the literal is read again and written without an exponent, and what is not needed at the end
of its fraction is cut off; any other literal has an exponent, from which the zeros in front are taken
away. Where the bounds are is decided on the number, not on its text.

* `ScaledNumber` — a coefficient and an exponent, as a text gives them;
* `ScaledNumber.read`, `ScaledNumber.fixed` — a text read, and a number written without an exponent;
* `withoutFractionZeros`, `withoutExponentZeros` — what is cut off;
* `webText` — the text of a number.
-/

namespace MessagePattern

/-- A text with a minus sign in front of it, if it stands for a negative number. -/
def signed (negative : Bool) (text : List Char) : List Char :=
  if negative then '-' :: text else text

/-- A number as its text gives it: a coefficient, with all its digits, times a power of ten. -/
structure ScaledNumber where
  negative : Bool
  /-- The digits of the coefficient, without the zeros in front. -/
  digits : List Char
  exponent : Int
  deriving DecidableEq, Repr

namespace ScaledNumber

/-- The number that the text after an exponent's mark denotes. -/
def readExponent : List Char → Int
  | '-' :: digits => -Numeral.value digits
  | '+' :: digits => Numeral.value digits
  | digits => Numeral.value digits

/-- Reads a text without a sign in front: digits, with or without a point among them, and maybe an
exponent. -/
def readUnsigned (negative : Bool) (text : List Char) : ScaledNumber :=
  let mantissa := text.takeWhile (· != 'e')
  let whole := mantissa.takeWhile (· != '.')
  let fraction := (mantissa.dropWhile (· != '.')).drop 1
  { negative
    digits := (whole ++ fraction).dropWhile (· == '0')
    exponent := readExponent ((text.dropWhile (· != 'e')).drop 1) - fraction.length }

/-- Reads the text of a number. -/
def read : List Char → ScaledNumber
  | '-' :: text => readUnsigned true text
  | text => readUnsigned false text

/-- A number without an exponent, with all digits of its coefficient. -/
def fixed (x : ScaledNumber) : List Char :=
  let point := x.digits.length + x.exponent
  signed x.negative <|
    if 0 ≤ x.exponent then x.digits ++ List.replicate x.exponent.toNat '0'
    else if point ≤ 0 then '0' :: '.' :: (List.replicate (-point).toNat '0' ++ x.digits)
    else x.digits.take point.toNat ++ '.' :: x.digits.drop point.toNat

end ScaledNumber

/-- A text without the zeros at the end of its fraction, and without a point at its end. A text without a
point is left alone, as its zeros count. -/
def withoutFractionZeros (text : List Char) : List Char :=
  if '.' ∈ text then ((text.reverse.dropWhile (· == '0')).dropWhile (· == '.')).reverse
  else text

/-- A text without the zeros between the sign and the first other digit of its exponent. -/
def withoutExponentZeros (text : List Char) : List Char :=
  match text.dropWhile (· != 'e') with
  | mark :: sign :: digits => text.takeWhile (· != 'e') ++ mark :: sign :: digits.dropWhile (· == '0')
  | _ => text

/-- Whether a number is at most another. -/
def Binary64.le (a b : Binary64) : Bool :=
  a.significand * Nat.pow 2 (a.exponent - b.exponent).toNat ≤
    b.significand * Nat.pow 2 (b.exponent - a.exponent).toNat

/-- The floating point number nearest to a millionth. It is a little less. -/
def Binary64.millionth : Binary64 := ⟨4722366482869645, -72, false⟩

/-- Ten to the twenty-first, which is a floating point number. -/
def Binary64.sextillion : Binary64 := ⟨7629394531250000, 17, false⟩

/-- The text of a floating point number that is not zero. -/
def webText (negative : Bool) (b : Binary64) : List Char :=
  let literal := signed negative (literalNumber.write (Decimal.shortest b))
  if Binary64.millionth.le b && !Binary64.sextillion.le b then
    withoutFractionZeros (ScaledNumber.read literal).fixed
  else withoutExponentZeros literal

example : Decimal.shortest Binary64.millionth = ⟨[1], -5⟩ := by decide
example : Decimal.shortest Binary64.sextillion = ⟨[1], 22⟩ := by decide

end MessagePattern
