import MessagePattern.Blank

/-!
# Positions in a source text

A cursor is an offset into a source text, counted in characters. Lines end at a line feed and at
nothing else, so a carriage return belongs to the line it stands in.

* `Cursor` — an offset, with what stands there and how to move on;
* `Cursor.line`, `Cursor.column` — where the offset is, both counted from one;
* `Span` — a region with its line and column, well formed by construction;
* `lines` — the lines of a text.
-/

namespace MessagePattern

/-- The lines of a text, without the line feeds between them. -/
def lines : List Char → List (List Char)
  | [] => [[]]
  | c :: t =>
    if c = '\n' then [] :: lines t
    else match lines t with
      | [] => [[c]]
      | line :: more => (c :: line) :: more

/-- There is always a line. -/
theorem lines_ne_nil (s : List Char) : lines s ≠ [] := by
  unfold lines
  split <;> (try split) <;> (try split) <;> simp

/-- What diagnostics name in place of a character at the end of the source. -/
def endOfPattern : String := "end of message pattern"

/-! ## Spans -/

/-- A region of a source text: it does not end before it starts, and its line and column are counted
from one. -/
structure Span where
  /-- The first offset in the region. -/
  start : Nat
  /-- The offset just past the region. -/
  stop : Nat
  line : Nat
  column : Nat
  start_le_stop : start ≤ stop
  one_le_line : 1 ≤ line
  one_le_column : 1 ≤ column
  deriving DecidableEq, Repr

/-- Why four numbers are no span. -/
inductive SpanError where
  | negativeStart (start : Int)
  | stopBeforeStart (start stop : Int)
  | lineBelowOne (line : Int)
  | columnBelowOne (column : Int)
  deriving DecidableEq, Repr

/-- The wording of a refused span. -/
def SpanError.message : SpanError → String
  | .negativeStart start => "Span start cannot be negative, got " ++ toString start
  | .stopBeforeStart start stop =>
    "Span end " ++ toString stop ++ " lies before its start " ++ toString start
  | .lineBelowOne line => "Span line is 1-indexed, got " ++ toString line
  | .columnBelowOne column => "Span column is 1-indexed, got " ++ toString column

/-- The span that four numbers give, if they are those of a region. -/
def Span.ofInts? (start stop line column : Int) : Except SpanError Span :=
  if h₁ : start < 0 then .error (.negativeStart start)
  else if h₂ : stop < start then .error (.stopBeforeStart start stop)
  else if h₃ : line < 1 then .error (.lineBelowOne line)
  else if h₄ : column < 1 then .error (.columnBelowOne column)
  else .ok ⟨start.toNat, stop.toNat, line.toNat, column.toNat, by omega, by omega, by omega⟩

/-! ## Cursors -/

/-- An offset into a source text. -/
structure Cursor where
  source : String
  /-- The number of characters before the cursor. -/
  pos : Nat
  deriving DecidableEq, Repr

namespace Cursor

/-- The text from the cursor on. -/
def rest (c : Cursor) : List Char := c.source.toList.drop c.pos

/-- The text up to the cursor. -/
def before (c : Cursor) : List Char := c.source.toList.take c.pos

/-- Whether every character has been read. -/
def isAtEnd (c : Cursor) : Bool := c.source.length ≤ c.pos

/-- The character under the cursor. -/
def current? (c : Cursor) : Option Char := c.rest.head?

/-- The character under the cursor, as diagnostics name it. -/
def found (c : Cursor) : String :=
  match c.current? with
  | some ch => String.singleton ch
  | none => endOfPattern

/-- The character a number of places ahead. -/
def peek? (c : Cursor) (offset : Nat) : Option Char := c.source.toList[c.pos + offset]?

/-- The cursor a number of places ahead, but not past the end. -/
def advance (c : Cursor) (count : Nat) : Cursor :=
  { c with pos := min (c.pos + count) c.source.length }

/-- The text from the cursor up to an offset. -/
def sliceTo (c : Cursor) (stop : Nat) : String :=
  String.ofList (c.rest.take (stop - c.pos))

/-- As many characters from the cursor on as there are, up to a number. -/
def sliceAhead (c : Cursor) (count : Nat) : String :=
  String.ofList (c.rest.take count)

/-- The cursor past a run of blanks. -/
def skipBlanks (c : Cursor) : Cursor :=
  { c with pos := c.pos + (c.rest.takeWhile isBlank).length }

/-- The line of the cursor: one more than the line feeds before it. -/
def line (c : Cursor) : Nat := c.before.count '\n' + 1

/-- The offset at which the line of the cursor starts. -/
def lineStart (c : Cursor) : Nat :=
  c.before.length - (c.before.reverse.takeWhile (· != '\n')).length

/-- The column of the cursor: one more than its distance from the start of its line. -/
def column (c : Cursor) : Nat := c.pos - c.lineStart + 1

/-- The span of the character under the cursor; it is empty at the end. -/
def span (c : Cursor) : Span where
  start := c.pos
  stop := if c.isAtEnd then c.pos else c.pos + 1
  line := c.line
  column := c.column
  start_le_stop := by split <;> omega
  one_le_line := by simp [line]
  one_le_column := by simp [column]

end Cursor

end MessagePattern
