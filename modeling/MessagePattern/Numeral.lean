/-!
# Numerals

Decimal numerals of bounded length. A numeral of more than `maxDigits` digits is not read.

* `Numeral.read?` — the number that a run of digits denotes;
* `Numeral.grouped` — a number with its digits in groups of three.
-/

namespace MessagePattern.Numeral

/-- The most digits that a numeral may have. -/
def maxDigits : Nat := 4300

/-- The number that a run of decimal digits denotes. -/
def value (digits : List Char) : Nat :=
  digits.foldl (fun n c => 10 * n + (c.toNat - '0'.toNat)) 0

/-- The number that a run of decimal digits denotes, if the run is not too long. -/
def read? (digits : List Char) : Option Nat :=
  if digits.length ≤ maxDigits then some (value digits) else none

/-- Puts a comma in front of each group of three characters, counted from the end; the characters are
given in reverse. -/
def groupReversed : List Char → List Char
  | a :: b :: c :: d :: t => a :: b :: c :: ',' :: groupReversed (d :: t)
  | few => few

/-- A number in decimal, its digits in groups of three with commas between them. -/
def grouped (n : Nat) : String :=
  String.ofList (groupReversed (Nat.toDigits 10 n).reverse).reverse

example : grouped 10485760 = "10,485,760" := by decide +kernel

end MessagePattern.Numeral
