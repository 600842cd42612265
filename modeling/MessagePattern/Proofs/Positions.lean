import Mathlib.Data.List.Basic
import MessagePattern.Cursor

/-!
# Lines and columns

The line and the column of a cursor are computed by counting line feeds in front of it and by
looking for the last one of them, and the lines of a text by cutting it at every line feed.
Both are told here from one picture: the text is what stands above the line that holds the
cursor, that line, and what stands below it.

* `lines_append_newline`, `length_lines` — a line feed parts lines from lines;
* `LineAt` — the line that holds an offset, between what is above and what is below;
* `exists_lineAt` — there is one for every offset up to the end of the text;
* `LineAt.getElem?_lines` — it is the line whose number is the line feeds above it;
* `LineAt.line_eq`, `LineAt.column_eq` — the line and the column of a cursor.
-/

namespace MessagePattern

/-! ## The lines of a text -/

theorem lines_nil : lines [] = [[]] := by rw [lines]

/-- A line feed ends an empty first line. -/
theorem lines_cons_newline (t : List Char) : lines ('\n' :: t) = [] :: lines t := by
  rw [lines, if_pos rfl]

/-- A character that is no line feed belongs to the first of the lines. -/
theorem lines_cons {c : Char} (hChar : c ≠ '\n') {t line : List Char} {more : List (List Char)}
    (h : lines t = line :: more) : lines (c :: t) = (c :: line) :: more := by
  rw [lines, if_neg hChar, h]

/-- A line feed parts the lines of the text before it from those of the text after it. -/
theorem lines_append_newline (s t : List Char) :
    lines (s ++ '\n' :: t) = lines s ++ lines t := by
  -- a character in front of a text begins a line, or joins the first one
  induction s with
  | nil => rw [List.nil_append, lines_cons_newline, lines_nil, List.singleton_append]
  | cons c s ih =>
    rw [List.cons_append]
    by_cases hChar : c = '\n'
    · rw [hChar, lines_cons_newline, lines_cons_newline, ih, List.cons_append]
    · obtain ⟨line, more, hLines⟩ := List.exists_cons_of_ne_nil (lines_ne_nil s)
      rw [hLines, List.cons_append] at ih
      rw [lines_cons hChar ih, lines_cons hChar hLines, List.cons_append]

/-- A text without line feeds is one line. -/
theorem lines_of_not_mem {line : List Char} (h : '\n' ∉ line) : lines line = [line] := by
  induction line with
  | nil => exact lines_nil
  | cons c line ih =>
    rw [List.mem_cons, not_or] at h
    exact lines_cons (fun hChar => h.1 hChar.symm) (ih h.2)

/-- There is one line more than there are line feeds. -/
theorem length_lines (s : List Char) : (lines s).length = s.count '\n' + 1 := by
  induction s with
  | nil => rw [lines_nil]; rfl
  | cons c s ih =>
    by_cases hChar : c = '\n'
    · rw [hChar, lines_cons_newline, List.length_cons, ih, List.count_cons_self]
    · obtain ⟨line, more, hLines⟩ := List.exists_cons_of_ne_nil (lines_ne_nil s)
      rw [lines_cons hChar hLines, List.length_cons, List.count_cons_of_ne hChar, ← ih, hLines,
        List.length_cons]

/-! ## The line that holds an offset -/

/-- A text, cut into the line that holds an offset, the text above that line up to the last line
feed before the offset, and the text below it from the next line feed on. -/
structure LineAt (s : List Char) (offset : Nat) (above line below : List Char) : Prop where
  split : s = above ++ (line ++ below)
  noBreak : '\n' ∉ line
  begins : above = [] ∨ ∃ up, above = up ++ ['\n']
  ends : below = [] ∨ ∃ down, below = '\n' :: down
  length_le : above.length ≤ offset
  le_length : offset ≤ above.length + line.length

/-- The first line of a text, and what begins with the line feed after it. -/
theorem exists_first_line (s : List Char) :
    ∃ line below, s = line ++ below ∧ '\n' ∉ line ∧
      (below = [] ∨ ∃ down, below = '\n' :: down) := by
  by_cases hBreak : '\n' ∈ s
  · obtain ⟨line, down, hSplit, hLine⟩ := List.eq_append_cons_of_mem hBreak
    exact ⟨line, '\n' :: down, hSplit, hLine, .inr ⟨down, rfl⟩⟩
  · exact ⟨s, [], (List.append_nil s).symm, hBreak, .inl rfl⟩

/-- The last line of a text, and what ends with the line feed before it. -/
theorem exists_last_line (s : List Char) :
    ∃ above line, s = above ++ line ∧ '\n' ∉ line ∧
      (above = [] ∨ ∃ up, above = up ++ ['\n']) := by
  -- read backwards, the last line is the first one
  obtain ⟨line, below, hSplit, hLine, hEnds⟩ := exists_first_line s.reverse
  refine ⟨below.reverse, line.reverse, ?_, by simpa using hLine, ?_⟩
  · rw [← List.reverse_append, ← hSplit, List.reverse_reverse]
  · rcases hEnds with rfl | ⟨down, rfl⟩
    · exact .inl rfl
    · exact .inr ⟨down.reverse, List.reverse_cons ..⟩

/-- Every offset up to the end of a text is in some line. -/
theorem exists_lineAt {s : List Char} {offset : Nat} (h : offset ≤ s.length) :
    ∃ above line below, LineAt s offset above line below := by
  -- the line is the end of what is before the offset and the beginning of what is after it
  obtain ⟨above, here, hFront, hHere, hBegins⟩ := exists_last_line (s.take offset)
  obtain ⟨more, below, hRest, hMore, hEnds⟩ := exists_first_line (s.drop offset)
  have hOffset : above.length + here.length = offset := by
    rw [← List.length_append, ← hFront, List.length_take_of_le h]
  refine ⟨above, here ++ more, below, ?_, ?_, hBegins, hEnds, by omega, ?_⟩
  · calc s = s.take offset ++ s.drop offset := (List.take_append_drop offset s).symm
      _ = above ++ (here ++ more ++ below) := by rw [hFront, hRest]; simp
  · rw [List.mem_append, not_or]
    exact ⟨hHere, hMore⟩
  · rw [List.length_append]
    omega

namespace LineAt

variable {s above row below : List Char} {offset : Nat}

/-- What stands before the offset is what is above the line and a front part of the line. -/
theorem take_eq (h : LineAt s offset above row below) :
    s.take offset = above ++ row.take (offset - above.length) := by
  have hInside : offset - above.length - row.length = 0 := by
    have := h.le_length
    omega
  rw [h.split, List.take_append, List.take_append, hInside, List.take_zero, List.append_nil,
    List.take_of_length_le h.length_le]

/-- The line feeds before the offset are those above the line. -/
theorem count_take (h : LineAt s offset above row below) :
    (s.take offset).count '\n' = above.count '\n' := by
  have hHere : '\n' ∉ row.take (offset - above.length) := fun hMem =>
    h.noBreak (List.mem_of_mem_take hMem)
  rw [h.take_eq, List.count_append, List.count_eq_zero_of_not_mem hHere, Nat.add_zero]

/-- A line that begins a text is the first of its lines. -/
theorem exists_lines_eq (h : LineAt s offset above row below) :
    ∃ more, lines (row ++ below) = row :: more := by
  rcases h.ends with rfl | ⟨down, rfl⟩
  · exact ⟨[], by rw [List.append_nil, lines_of_not_mem h.noBreak]⟩
  · exact ⟨lines down, by rw [lines_append_newline, lines_of_not_mem h.noBreak,
      List.singleton_append]⟩

/-- The line comes after as many lines as there are line feeds above it. -/
theorem getElem?_lines (h : LineAt s offset above row below) :
    (lines s)[above.count '\n']? = some row := by
  obtain ⟨more, hFirst⟩ := h.exists_lines_eq
  rw [h.split]
  rcases h.begins with rfl | ⟨up, rfl⟩
  · rw [List.nil_append, hFirst]
    rfl
  · have hCount : (up ++ ['\n']).count '\n' = (lines up).length := by
      rw [length_lines, List.count_append, List.count_singleton_self]
    rw [List.append_assoc, List.singleton_append, lines_append_newline, hFirst, hCount,
      List.getElem?_append_right (Nat.le_refl _), Nat.sub_self]
    rfl

/-- The character at the offset is one of the line, or the line feed after it. -/
theorem getElem?_line (h : LineAt s offset above row below) {c : Char}
    (hChar : s[offset]? = some c) (hOther : c ≠ '\n') :
    row[offset - above.length]? = some c := by
  rw [h.split, List.getElem?_append_right h.length_le] at hChar
  rcases Nat.lt_or_ge (offset - above.length) row.length with hInside | hEnd
  · rwa [List.getElem?_append_left hInside] at hChar
  · -- past the line there is nothing, or a line feed
    have hLast : offset - above.length - row.length = 0 := by
      have := h.le_length
      omega
    rw [List.getElem?_append_right hEnd, hLast] at hChar
    rcases h.ends with rfl | ⟨down, rfl⟩
    · simp at hChar
    · exact absurd (Option.some.inj hChar).symm hOther

/-- The offset is just past the line at the end of the text and at a line feed. -/
theorem offset_eq_of_ends (h : LineAt s offset above row below)
    (hEnds : offset = s.length ∨ s[offset]? = some '\n') :
    offset = above.length + row.length := by
  have hLength : s.length = above.length + (row.length + below.length) := by
    rw [h.split, List.length_append, List.length_append]
  have hLe := h.le_length
  rcases hEnds with hEnd | hBreak
  · omega
  · -- inside the line there is no line feed
    refine Nat.le_antisymm hLe (Nat.le_of_not_lt fun hInside => h.noBreak ?_)
    have hHere : row[offset - above.length]? = some '\n' := by
      have hLt : offset - above.length < row.length := by
        have := h.length_le
        omega
      rwa [h.split, List.getElem?_append_right h.length_le,
        List.getElem?_append_left hLt] at hBreak
    exact List.mem_of_getElem? hHere

/-! ### Cursors -/

variable {c : Cursor}

/-- The line of a cursor is one more than the line feeds above it. -/
theorem line_eq (h : LineAt c.source.toList c.pos above row below) :
    c.line = above.count '\n' + 1 := by
  rw [Cursor.line, Cursor.before, h.count_take]

/-- The line of a cursor starts where the text above it ends. -/
theorem lineStart_eq (h : LineAt c.source.toList c.pos above row below) :
    c.lineStart = above.length := by
  -- reading backwards from the cursor, the line goes on up to the text above it
  have hHere : ∀ d ∈ (row.take (c.pos - above.length)).reverse, (d != '\n') = true := by
    intro d hMem
    have hLine : d ∈ row := List.mem_of_mem_take (List.mem_reverse.mp hMem)
    rw [bne_iff_ne]
    rintro rfl
    exact h.noBreak hLine
  -- the text above ends with a line feed, or there is none
  have hAbove : above.reverse.takeWhile (· != '\n') = [] := by
    rcases h.begins with rfl | ⟨up, rfl⟩
    · rfl
    · rw [List.reverse_append, List.reverse_singleton, List.singleton_append,
        List.takeWhile_cons_of_neg (by decide)]
  rw [Cursor.lineStart, Cursor.before, h.take_eq, List.reverse_append,
    List.takeWhile_append_of_pos hHere, hAbove, List.append_nil, List.length_reverse,
    List.length_append, Nat.add_sub_cancel]

/-- The column of a cursor is one more than its distance from the text above its line. -/
theorem column_eq (h : LineAt c.source.toList c.pos above row below) :
    c.column = c.pos - above.length + 1 := by
  rw [Cursor.column, h.lineStart_eq]

end LineAt

end MessagePattern
