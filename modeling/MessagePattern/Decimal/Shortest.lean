/-!
# Shortest decimals

The shortest decimal that reads back as a given binary floating point number. The number is taken apart
into an integer times a power of two; every real in an interval around it is rounded to it, the ends of
the interval included when the integer is even. A decimal with `n` digits is looked for on the grid of
such decimals around the number, for growing `n`: if any point of the grid lies in the interval, so does
one of the two neighbours of the number on that grid.

* `Binary64` — a finite number as an integer times a power of two;
* `FloatClass.ofBits` — what 64 bits stand for;
* `Decimal` — digits and an exponent;
* `Decimal.shortest` — the first grid with a hit; of two hits the nearer, of two equally near the even.
-/

namespace MessagePattern

/-- The magnitude of a finite floating point number: `significand * 2 ^ exponent`. -/
structure Binary64 where
  significand : Nat
  exponent : Int
  /-- Whether the gap to the next smaller number is half the gap to the next larger one. -/
  narrowBelow : Bool
  deriving DecidableEq, Repr

/-- What the bits of a floating point number stand for. -/
inductive FloatClass where
  | nan
  | infinity (negative : Bool)
  | zero (negative : Bool)
  | finite (negative : Bool) (magnitude : Binary64)
  deriving DecidableEq, Repr

/-- Takes the 64 bits of a floating point number apart: one of sign, eleven of exponent, and 52 of
fraction. -/
def FloatClass.ofBits (bits : Nat) : FloatClass :=
  let negative := bits / Nat.pow 2 63 % 2 == 1
  let biased : Nat := bits / Nat.pow 2 52 % Nat.pow 2 11
  let fraction : Nat := bits % Nat.pow 2 52
  if biased = Nat.pow 2 11 - 1 then
    if fraction = 0 then .infinity negative else .nan
  else if biased = 0 then
    if fraction = 0 then .zero negative else .finite negative ⟨fraction, -1074, false⟩
  else .finite negative ⟨Nat.pow 2 52 + fraction, (biased : Int) - 1075, fraction == 0 && biased != 1⟩

/-- A positive decimal, `0.d₁d₂…dₙ * 10 ^ point`: its digits, and where the point stands. -/
structure Decimal where
  /-- The digits, from the first that is not zero to the last that is not zero. -/
  digits : List Nat
  /-- The number of digits before the point; it may be negative, or more than there are digits. -/
  point : Int
  deriving DecidableEq, Repr

namespace Decimal

/-- The digits of a number, from the first on. -/
def digitsOf (n : Nat) : List Nat :=
  (Nat.toDigits 10 n).map fun c => c.toNat - '0'.toNat

/-- The decimal `n * 10 ^ exponent`, without zeros at its end. -/
def ofScaled (n : Nat) (exponent : Int) : Decimal :=
  let digits := digitsOf n
  ⟨(digits.reverse.dropWhile (· == 0)).reverse, digits.length + exponent⟩

/-- A number `mid / den`, with the interval from `low / den` to `high / den` of the reals that are rounded
to it. -/
structure Rounding where
  low : Nat
  mid : Nat
  high : Nat
  den : Nat
  /-- Whether the ends belong to the interval. -/
  closed : Bool

/-- The interval around a floating point number. -/
def Rounding.ofBinary (b : Binary64) : Rounding :=
  -- Everything is counted in quarters of the last place, so that half of either gap is an integer.
  let scale := Nat.pow 2 (b.exponent - 2).toNat
  { low := (4 * b.significand - if b.narrowBelow then 1 else 2) * scale
    mid := 4 * b.significand * scale
    high := (4 * b.significand + 2) * scale
    den := Nat.pow 2 (2 - b.exponent).toNat
    closed := b.significand % 2 == 0 }

/-- Whether `n * 10 ^ exponent` lies in the interval. -/
def Rounding.holds (r : Rounding) (n : Nat) (exponent : Int) : Bool :=
  let point := n * Nat.pow 10 exponent.toNat * r.den
  let unit := Nat.pow 10 (-exponent).toNat
  if r.closed then r.low * unit ≤ point && point ≤ r.high * unit
  else r.low * unit < point && point < r.high * unit

/-- The decimal exponent of a quotient: the number of digits before its point, which is zero or less
where the first digit stands after the point. The estimate starts from the lengths of the two numbers
and is mended by one. -/
def magnitude (num den : Nat) : Int :=
  let estimate := ((Nat.toDigits 10 num).length : Int) - (Nat.toDigits 10 den).length
  if num * Nat.pow 10 (-estimate).toNat < den * Nat.pow 10 estimate.toNat then estimate else estimate + 1

/-- The decimal on the grid of multiples of `10 ^ exponent` that lies in the interval and is nearest to
the number, the even one of two that are equally near. -/
def Rounding.nearest? (r : Rounding) (exponent : Int) : Option Decimal :=
  let num := r.mid * Nat.pow 10 (-exponent).toNat
  let den := r.den * Nat.pow 10 exponent.toNat
  let below := num / den
  let twice := 2 * (num % den)
  -- the nearer of the two neighbours is tried first
  let upFirst := den < twice || (twice == den && below % 2 == 1)
  let first := if upFirst then below + 1 else below
  let second := if upFirst then below else below + 1
  if r.holds first exponent then some (ofScaled first exponent)
  else if r.holds second exponent then some (ofScaled second exponent)
  else none

/-- The shortest decimal that reads back as the number. Seventeen digits always do. -/
def shortest (b : Binary64) : Decimal :=
  let r := Rounding.ofBinary b
  let point := magnitude r.mid r.den
  let grids := (List.range 17).map fun (n : Nat) => point - 1 - n
  (grids.findSome? r.nearest?).getD ⟨[], 0⟩

end Decimal

end MessagePattern
