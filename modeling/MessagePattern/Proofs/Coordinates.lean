import Mathlib.Algebra.GroupWithZero.Nat
import Mathlib.Data.Prod.Lex
import Mathlib.Order.Interval.Set.Defs
import MessagePattern.Proofs.Positions

/-!
# Line and column are coordinates

The line and the column of a cursor tell its offset, and tell it in order. Both are read off the
lines of the text before the offset, of which the last one is a front part of the line that holds
the offset. The lines above that one, each with its line feed, fill the text above it, so the
offset comes back from the lines of the whole text; and since it comes back, a later offset on the
same line has a larger column.

* `sum_length_lines` — the lines of a text are all of it but the line feeds;
* `LineAt.take`, `LineAt.length_above` — the line that holds an offset, with the text cut at the
  offset, and with what is above the line measured;
* `Coordinates` — a line and a column that belong to an offset;
* `Cursor.coordinates`, `Cursor.place_lt_place` — one cursor, and two of them in order;
* `Cursor.lineColumn_faithful` — the coordinates of all the offsets of a text.
-/

namespace MessagePattern

/-! ## The length of the lines -/

/-- The lines of a text and the line feeds between them are as long as the text. -/
theorem sum_length_lines (s : List Char) :
    ((lines s).map List.length).sum + s.count '\n' = s.length := by
  -- a line feed begins one more line, any other character lengthens the first one
  induction s with
  | nil => rw [lines_nil]; rfl
  | cons c s ih =>
    by_cases hChar : c = '\n'
    · rw [hChar, lines_cons_newline, List.map_cons, List.sum_cons, List.length_nil,
        List.count_cons_self, List.length_cons]
      omega
    · obtain ⟨line, more, hLines⟩ := List.exists_cons_of_ne_nil (lines_ne_nil s)
      rw [hLines, List.map_cons, List.sum_cons] at ih
      rw [lines_cons hChar hLines, List.map_cons, List.sum_cons, List.count_cons_of_ne hChar,
        List.length_cons, List.length_cons]
      omega

namespace LineAt

variable {s above row below : List Char} {offset : Nat}

/-- Cut at the offset, the text ends with the front part of the line. -/
theorem take (h : LineAt s offset above row below) :
    LineAt (s.take offset) offset above (row.take (offset - above.length)) [] where
  split := by rw [List.append_nil, h.take_eq]
  noBreak := fun hMem => h.noBreak (List.mem_of_mem_take hMem)
  begins := h.begins
  ends := .inl rfl
  length_le := h.length_le
  le_length := by
    have hLe := h.le_length
    rw [List.length_take]
    omega

/-- What is above the line is as long as the lines above it and their line feeds. -/
theorem length_above (h : LineAt s offset above row below) :
    above.length =
      (((lines s).take (above.count '\n')).map List.length).sum + above.count '\n' := by
  rcases h.begins with hNone | ⟨up, hUp⟩
  · simp [hNone]
  · -- the lines above are those of the text up to the line feed before the line
    have hCount : above.count '\n' = (lines up).length := by
      rw [hUp, length_lines, List.count_append, List.count_singleton_self]
    have hLines : lines s = lines up ++ lines (row ++ below) := by
      rw [h.split, hUp, List.append_assoc, List.singleton_append, lines_append_newline]
    have hUpper := sum_length_lines up
    have hLength := length_lines up
    rw [hCount, hLines, List.take_left, hUp, List.length_append, List.length_singleton]
    omega

end LineAt

/-! ## Coordinates -/

/-- A line and a column that belong to an offset of a text. They are told from the lines of the
text before the offset, and in the lines of the whole text they lead back to it. -/
structure Coordinates (s : List Char) (offset line column : Nat) : Prop where
  /-- The line counts the lines of the text before the offset. -/
  line_eq : line = (lines (s.take offset)).length
  /-- The column is one more than the length of the last of them. -/
  column_eq : ∃ last, (lines (s.take offset)).getLast? = some last ∧ column = 1 + last.length
  /-- In the whole text, the column is within the line or just past it. -/
  column_le : ∃ row, (lines s)[line - 1]? = some row ∧ column - 1 ≤ row.length
  /-- The offset comes after the lines above, their line feeds, and what is left of it on its
  line. -/
  offset_eq : offset =
    (((lines s).take (line - 1)).map List.length).sum + (line - 1) + (column - 1)

namespace Cursor

/-- The line and the column of a cursor as a place among all lines and columns, which come line
by line. -/
def place (c : Cursor) : Nat ×ₗ Nat := toLex (c.line, c.column)

/-- The line and the column of a cursor belong to its offset. -/
theorem coordinates {c : Cursor} (h : c.pos ≤ c.source.toList.length) :
    Coordinates c.source.toList c.pos c.line c.column := by
  obtain ⟨above, row, below, hLine⟩ := exists_lineAt h
  -- the cursor is not in front of its line, and no further than just past it
  have hAbove := hLine.length_le
  have hInside := hLine.le_length
  constructor
  case line_eq => rw [length_lines, hLine.count_take, hLine.line_eq]
  case column_eq =>
    refine ⟨row.take (c.pos - above.length), ?_, ?_⟩
    · -- with the text cut at the offset, the line is the last one
      rw [List.getLast?_eq_getElem?, length_lines, hLine.count_take, Nat.add_sub_cancel,
        hLine.take.getElem?_lines]
    · rw [hLine.column_eq, List.length_take]
      omega
  case column_le =>
    refine ⟨row, ?_, ?_⟩
    · rw [hLine.line_eq, Nat.add_sub_cancel, hLine.getElem?_lines]
    · rw [hLine.column_eq]
      omega
  case offset_eq =>
    rw [hLine.line_eq, hLine.column_eq, Nat.add_sub_cancel, Nat.add_sub_cancel,
      ← hLine.length_above]
    omega

/-- A later offset is on no earlier line. -/
theorem line_le_line (source : String) {pos pos' : Nat} (h : pos ≤ pos') :
    (Cursor.mk source pos).line ≤ (Cursor.mk source pos').line := by
  have hPrefix : (source.toList.take pos).Sublist (source.toList.take pos') :=
    (List.take_prefix_take_left h).sublist
  exact Nat.succ_le_succ (hPrefix.count_le '\n')

/-- A later offset has a later place. -/
theorem place_lt_place {source : String} {pos pos' : Nat} (hLt : pos < pos')
    (hEnd : pos' ≤ source.toList.length) :
    (Cursor.mk source pos).place < (Cursor.mk source pos').place := by
  have hHere := (coordinates (c := ⟨source, pos⟩) (hLt.le.trans hEnd)).offset_eq
  have hThere := (coordinates (c := ⟨source, pos'⟩) hEnd).offset_eq
  rw [place, place, Prod.Lex.toLex_lt_toLex]
  rcases Nat.lt_or_eq_of_le (line_le_line source hLt.le) with hLine | hLine
  · exact .inl hLine
  · -- on one line the offsets differ by what the columns differ
    refine .inr ⟨hLine, ?_⟩
    rw [hLine] at hHere
    dsimp only at hHere hThere ⊢
    omega

/-- **Line and column are coordinates.** At every offset up to the end of a text, the line and the
column are those of the text before the offset, and lead back to the offset in the lines of the
whole text; and from one offset to the next the line and the column strictly increase. -/
theorem lineColumn_faithful (source : String) :
    (∀ pos ≤ source.length, Coordinates source.toList pos
      (Cursor.mk source pos).line (Cursor.mk source pos).column) ∧
    StrictMonoOn (fun pos => (Cursor.mk source pos).place) (Set.Iic source.length) := by
  constructor
  · intro pos hPos
    exact coordinates (c := ⟨source, pos⟩) (by rwa [String.length_toList])
  · intro pos _ pos' hEnd hLt
    exact place_lt_place hLt (by rwa [String.length_toList])

/-- Behind the second of two line feeds in a row. -/
theorem lineColumn_faithful_of_blank_line :
    3 ≤ "a\n\nb\n".length ∧ (Cursor.mk "a\n\nb\n" 3).line = 3 ∧
      (Cursor.mk "a\n\nb\n" 3).column = 1 ∧
      Coordinates "a\n\nb\n".toList 3 (Cursor.mk "a\n\nb\n" 3).line
        (Cursor.mk "a\n\nb\n" 3).column ∧
      (Cursor.mk "a\n\nb\n" 2).place < (Cursor.mk "a\n\nb\n" 3).place := by
  have hFaithful := lineColumn_faithful "a\n\nb\n"
  refine ⟨by decide, by decide, by decide, hFaithful.1 3 (by decide), ?_⟩
  exact hFaithful.2 (Set.mem_Iic.mpr (by decide)) (Set.mem_Iic.mpr (by decide)) (by decide)

end Cursor

end MessagePattern
