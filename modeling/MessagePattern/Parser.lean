import MessagePattern.Grammar
import MessagePattern.PatternValue
import MessagePattern.SyntaxError

/-!
# Parsing patterns

A parser holds two limits, one on the length of patterns and one on how deep sub-messages nest. It turns
what it is offered into text, reads the text as a message, and appends the tokens to a log that the
caller owns.

* `Parser` — the limits;
* `Parser.parseInto` — the message of a pattern, or why there is none, and the grown log;
* `Parser.parse` — the message alone;
* `Reader.runAt` — any reader, from a cursor on;
* `Notice` — what is reported of parsers at work.
-/

namespace MessagePattern

/-- Why a pattern gives no tree, or a reader no value. -/
inductive Failure where
  /-- The pattern breaks the grammar. -/
  | rejected (error : SyntaxError)
  /-- The pattern is longer than the limit. -/
  | tooLong (size limit : Nat)
  /-- A node was to be built that is refused. -/
  | invalidNode (cause : NodeError)
  /-- A character was to be taken at or past the end. -/
  | endOfSource (position : Nat)
  deriving DecidableEq, Repr

/-- The wording of a failure. -/
def Failure.message : Failure → String
  | .rejected error => error.message
  | .tooLong size limit =>
    "Pattern size (" ++ Numeral.grouped size ++ " characters) exceeds maximum (" ++
      Numeral.grouped limit ++ " characters). " ++
      "Configure max_source_size in MessageFormatParser constructor to increase limit."
  | .invalidNode cause => cause.message
  | .endOfSource position => (Diagnostic.unexpectedEnd position).message

/-- A fault at a cursor. -/
def Failure.ofFault (c : Cursor) : Fault → Failure
  | .violation cause => .rejected (.ofViolation cause c)
  | .invalidNode cause => .invalidNode cause
  | .endOfSource => .endOfSource c.pos

/-! ## Readers at work on a source text -/

/-- What a reader makes of a source text from a cursor on. -/
structure Outcome (α : Type) where
  result : Except Failure α
  tokens : List Token
  cursor : Cursor

/-- Runs a reader from a cursor on. -/
def Reader.runAt {α : Type} (p : Reader α) (c : Cursor) : Outcome α :=
  let reply := p.run c.rest
  let after := { c with pos := c.pos + (c.rest.length - reply.rest.length) }
  ⟨reply.result.mapError (Failure.ofFault after), reply.tokens, after⟩

/-! ## Parsers -/

/-- The limits within which patterns are parsed. -/
structure Parser where
  /-- The most characters that a pattern may have; there is no limit when it is not positive. -/
  maxLength : Int := 10 * 1024 * 1024
  maxNesting : Int := defaultNestingLimit
  deriving DecidableEq, Repr

/-- What is reported of parsers at work. -/
inductive Notice where
  | clamped (clamping : Clamping)
  | parsed (characters elements : Nat)
  | rejected (offset : Nat) (message : String)
  deriving DecidableEq, Repr

/-- The wording of a notice. -/
def Notice.message : Notice → String
  | .clamped clamping => clamping.message
  | .parsed characters elements =>
    "Parsed pattern (" ++ toString characters ++ " characters, " ++ toString elements ++ " elements)"
  | .rejected offset message =>
    "Pattern rejected at offset " ++ toString offset ++ ": " ++ message

namespace Parser

/-- The frames of the stack that one level of nesting takes. -/
def framesPerLevel : Int := 5

/-- The nesting limit for a limit that is asked for. -/
def clampNesting (requested : Int) : ClampedDepth :=
  clampDepth requested framesPerLevel reservedFrames

/-- A parser with the limits that are asked for, or the usual ones, and what is to be reported of
them. -/
def make (maxLength maxNesting : Option Int) : Parser × List Notice :=
  let nesting := clampNesting (maxNesting.getD defaultNestingLimit)
  let usual : Parser := {}
  (⟨maxLength.getD usual.maxLength, nesting.depth⟩, (nesting.clamping.map Notice.clamped).toList)

/-- What is reported of a parse. -/
def noticesOf (source : String) : Except Failure Message → List Notice
  | .ok message => [.parsed source.length message.length]
  | .error (.rejected error) => [.rejected error.offset error.message]
  | .error _ => []

/-- The context in which a parser reads the root message. -/
def rootContext (p : Parser) : Context := { limit := p.maxNesting }

/-- Parses a text that is not too long, and appends the tokens to a log. -/
def parseText (p : Parser) (source : String) (log : List Token) :
    Except Failure Message × List Token :=
  let outcome := (Grammar.message p.rootContext).runAt ⟨source, 0⟩
  (outcome.result, log ++ outcome.tokens)

/-- Parses what is offered as a pattern, and appends the tokens to a log. A pattern that is too long is
not read at all. -/
def parseInto (p : Parser) (pattern : PatternValue) (log : List Token) :
    Except Failure Message × List Token :=
  let source := pattern.toText
  if 0 < p.maxLength ∧ p.maxLength < source.length then
    (.error (.tooLong source.length p.maxLength.toNat), log)
  else p.parseText source log

/-- The message of what is offered as a pattern. -/
def parse (p : Parser) (pattern : PatternValue) : Except Failure Message :=
  (p.parseInto pattern []).1

end Parser

/-- The message of what is offered as a pattern, within the usual limits. -/
def parse (pattern : PatternValue) : Except Failure Message :=
  Parser.parse {} pattern

end MessagePattern
