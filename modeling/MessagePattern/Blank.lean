/-!
# Blank characters

The characters that separate the parts of a placeholder: Unicode white space, the retired separator
U+180E, and the zero-width characters U+200B to U+200D, U+2060 and U+FEFF. Patterns are pasted from
word processors and spreadsheets, so the typographic spaces count as much as U+0020 does.

* `blankRanges` — the code points as closed ranges, in increasing order;
* `isBlank` — membership in them.
-/

namespace MessagePattern

/-- The blank code points, as closed ranges in increasing order. -/
def blankRanges : List (Nat × Nat) :=
  [(0x0009, 0x000D), (0x0020, 0x0020), (0x0085, 0x0085), (0x00A0, 0x00A0), (0x1680, 0x1680),
   (0x180E, 0x180E), (0x2000, 0x200D), (0x2028, 0x2029), (0x202F, 0x202F), (0x205F, 0x2060),
   (0x3000, 0x3000), (0xFEFF, 0xFEFF)]

/-- Whether a character separates the parts of a placeholder. -/
def isBlank (c : Char) : Bool :=
  blankRanges.any fun range => range.1 ≤ c.toNat && c.toNat ≤ range.2

/-- Every character that ASCII calls white space is blank. -/
theorem isBlank_of_isWhitespace {c : Char} (h : c.isWhitespace = true) : isBlank c = true := by
  simp only [Char.isWhitespace, Bool.or_eq_true, decide_eq_true_eq] at h
  rcases h with ((rfl | rfl) | rfl) | rfl <;> decide

example : (blankRanges.map fun range => range.2 + 1 - range.1).sum = 31 := by decide

end MessagePattern
