import MessagePattern.Diagnostic.Layout

/-!
# Syntax errors

What a rejected pattern gives: the diagnostic together with the pattern, so that the offending line can
be shown. Where the diagnostic knows no position, the error is placed at the start of the pattern.
-/

namespace MessagePattern

/-- A diagnostic and the pattern that it is about. -/
structure SyntaxError where
  diagnostic : Diagnostic
  source : String := ""
  deriving DecidableEq, Repr

namespace SyntaxError

/-- The error for a violation at a cursor. -/
def ofViolation (cause : Violation) (c : Cursor) : SyntaxError :=
  ⟨cause.diagnostic c, c.source⟩

/-- What is wrong, on one line. -/
def message (e : SyntaxError) : String := e.diagnostic.message

/-- What the grammar calls for. -/
def expected (e : SyntaxError) : Option String := e.diagnostic.expected

/-- What is there instead. -/
def found (e : SyntaxError) : Option String := e.diagnostic.found

/-- The number of characters before the error. -/
def offset (e : SyntaxError) : Nat := (e.diagnostic.span.map (·.start)).getD 0

/-- The line of the error. -/
def line (e : SyntaxError) : Nat := (e.diagnostic.span.map (·.line)).getD 1

/-- The column of the error. -/
def column (e : SyntaxError) : Nat := (e.diagnostic.span.map (·.column)).getD 1

/-- The report of the error with the offending line. -/
def report (e : SyntaxError) : String := e.diagnostic.report (some e.source)

end SyntaxError

end MessagePattern
