import MessagePattern.Cursor
import MessagePattern.Fault

/-!
# Diagnostics

Everything that is said about one problem: a stable code, a one-line message, where the problem is, and
how to mend it. The wording of every message stands here.

* `Diagnostic.Code` — the families of problems;
* `Diagnostic` — the record;
* `Violation.diagnostic` — what is said about a violation, given what stands where it happened.
-/

namespace MessagePattern

namespace Diagnostic

/-- The families of problems. -/
inductive Code where
  | maxDepthExceeded
  | unexpectedEnd
  | unexpectedToken
  | expectedToken
  | missingOther
  | nestingDepthExceeded
  | offsetOutOfRange
  deriving DecidableEq, Repr

namespace Code

/-- All codes, by number. -/
def all : List Code :=
  [.maxDepthExceeded, .unexpectedEnd, .unexpectedToken, .expectedToken, .missingOther,
   .nestingDepthExceeded, .offsetOutOfRange]

/-- The number of a code: the two thousands are about trees, the three thousands about patterns. -/
def number : Code → Nat
  | .maxDepthExceeded => 2010
  | .unexpectedEnd => 3001
  | .unexpectedToken => 3002
  | .expectedToken => 3003
  | .missingOther => 3004
  | .nestingDepthExceeded => 3005
  | .offsetOutOfRange => 3006

/-- The name of a code. -/
def name : Code → String
  | .maxDepthExceeded => "MAX_DEPTH_EXCEEDED"
  | .unexpectedEnd => "UNEXPECTED_EOF"
  | .unexpectedToken => "UNEXPECTED_TOKEN"
  | .expectedToken => "EXPECTED_TOKEN"
  | .missingOther => "MISSING_OTHER_SUB_MESSAGE"
  | .nestingDepthExceeded => "PARSE_NESTING_DEPTH_EXCEEDED"
  | .offsetOutOfRange => "OFFSET_OUT_OF_RANGE"

/-- The code with a given name. -/
def ofName? (name : String) : Option Code :=
  all.find? fun code => code.name == name

/-- A code is determined by its name. -/
theorem name_injective {a b : Code} (h : a.name = b.name) : a = b := by
  cases a <;> cases b <;> simp_all [name]

end Code

/-- How grave a problem is. -/
inductive Severity where
  | error | warning
  deriving DecidableEq, Repr

/-- The label of a severity. -/
def Severity.label : Severity → String
  | .error => "error"
  | .warning => "warning"

/-- A severity is determined by its label. -/
theorem Severity.label_injective {a b : Severity} (h : a.label = b.label) : a = b := by
  cases a <;> cases b <;> simp_all [label]

end Diagnostic

/-- What is known about one problem. -/
structure Diagnostic where
  code : Diagnostic.Code
  message : String
  /-- Where in the pattern the problem is. -/
  span : Option Span := none
  /-- How the pattern can be mended. -/
  hint : Option String := none
  /-- Where the family is documented. -/
  helpUrl : Option String := none
  /-- What the grammar calls for. -/
  expected : Option String := none
  /-- What is there instead. -/
  found : Option String := none
  severity : Diagnostic.Severity := .error
  deriving DecidableEq, Repr

namespace Diagnostic

/-- Where the pattern language is documented. -/
def docsBase : String := "https://unicode-org.github.io/icu/userguide/format_parse/messages"

/-- The documentation of arguments with sub-messages. -/
def complexArgumentsUrl : String := docsBase ++ "/#complex-argument-types"

/-- The grammar calls for one thing and another is found. -/
def expectedToken (what found : String) (span : Option Span) : Diagnostic where
  code := .expectedToken
  message := "Expected " ++ what ++ " but found " ++ found
  span := span
  hint := (Expectation.ofText? what).map Expectation.hint
  helpUrl := some (docsBase ++ "/")
  expected := some what
  found := some found

/-- A character is found that nothing can begin with. -/
def unexpectedToken (found : String) (span : Option Span) : Diagnostic where
  code := .unexpectedToken
  message := "Unexpected " ++ found ++ " found"
  span := span
  hint := some ("Remove the stray " ++ found ++ " or escape it as '" ++ found ++ "'")
  helpUrl := some (docsBase ++ "/")
  found := some found

/-- A list of sub-messages lacks the one for everything else. -/
def missingOther (construct : String) (span : Option Span) : Diagnostic where
  code := .missingOther
  message := "\"other\" sub-message must be specified in " ++ construct
  span := span
  hint := some "Add an 'other \x7b...\x7d' case used when no other selector matches"
  helpUrl := some complexArgumentsUrl
  expected := some ("\"other\" sub-message in " ++ construct)

/-- A character was read past the end of the source. -/
def unexpectedEnd (position : Int) : Diagnostic where
  code := .unexpectedEnd
  message := "Unexpected EOF at position " ++ toString position

/-- Sub-messages nest deeper than the limit. -/
def nestingDepthExceeded (limit : Int) (span : Option Span) : Diagnostic where
  code := .nestingDepthExceeded
  message := "Maximum nesting depth of " ++ toString limit ++ " exceeded"
  span := span
  hint := some "Flatten nested plural/select arguments or raise max_nesting_depth"

/-- A tree is deeper than the limit of its walk. -/
def traversalDepthExceeded (limit : Int) : Diagnostic where
  code := .maxDepthExceeded
  message := "Maximum traversal depth (" ++ toString limit ++ ") exceeded"
  hint := some "The message tree is nested deeper than any parsed pattern can be"

/-- The number of an offset clause has more digits than are read. -/
def offsetOutOfRange (maxDigits : Int) (span : Option Span) : Diagnostic where
  code := .offsetOutOfRange
  message := "Offset number exceeds " ++ toString maxDigits ++ " digits"
  span := span
  hint := some "Use a small non-negative offset, e.g. offset:1"
  helpUrl := some complexArgumentsUrl

end Diagnostic

/-- What is said about a violation at a cursor. -/
def Violation.diagnostic (c : Cursor) : Violation → Diagnostic
  | .expected what => .expectedToken what.text c.found (some c.span)
  | .unexpected => .unexpectedToken c.found (some c.span)
  | .missingOther construct => .missingOther construct (some c.span)
  | .tooDeep limit => .nestingDepthExceeded limit (some c.span)
  | .offsetOutOfRange maxDigits => .offsetOutOfRange maxDigits (some c.span)

end MessagePattern
