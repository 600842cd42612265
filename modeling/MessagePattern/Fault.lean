import MessagePattern.Tree.Checked

/-!
# Faults

Why reading a pattern stops. A violation is a fault of the pattern; the other faults are those of the
operations that the grammar is made of, outside of what they are for.

* `Expectation` — what the grammar calls for, with its wording;
* `Violation` — how a pattern breaks the grammar;
* `Fault` — why a reader stops.
-/

namespace MessagePattern

/-- What the grammar calls for at some place. -/
inductive Expectation where
  | placeholderId
  /-- The next part of a placeholder, or its end. -/
  | separatorOrClose
  | close
  | placeholderType
  | styleName
  | offsetNumber
  | selector
  /-- The brace before a sub-message. -/
  | subMessageOpen
  /-- The brace after a sub-message. -/
  | subMessageClose
  /-- The sub-messages of an argument of the given type. -/
  | subMessages (type : String)
  deriving DecidableEq, Repr

namespace Expectation

/-- How an expectation is called in a message. -/
def text : Expectation → String
  | .placeholderId => "placeholder id"
  | .separatorOrClose => ", or \x7d"
  | .close => "\x7d"
  | .placeholderType => "placeholder type"
  | .styleName => "placeholder style name"
  | .offsetNumber => "offset number"
  | .selector => "sub-message selector"
  | .subMessageOpen => "\x7b to start sub-message"
  | .subMessageClose => "\x7d to end sub-message"
  | .subMessages type => type ++ " sub-messages"

/-- The expectations that name no argument type. -/
def plain : List Expectation :=
  [.placeholderId, .separatorOrClose, .close, .placeholderType, .styleName, .offsetNumber, .selector,
   .subMessageOpen, .subMessageClose]

/-- The expectation that a text calls by its name. -/
def ofText? (text : String) : Option Expectation :=
  match plain.find? (fun what => what.text == text) with
  | some what => some what
  | none =>
    let ending := " sub-messages".toList
    if ending.isSuffixOf text.toList then
      some (.subMessages (String.ofList (text.toList.take (text.length - ending.length))))
    else none

/-- How a pattern that disappoints the expectation can be mended. -/
def hint : Expectation → String
  | .placeholderId =>
    "Name the argument right after '\x7b', or quote a literal brace as '\x7b'"
  | .separatorOrClose => "Separate placeholder parts with commas and close it with '\x7d'"
  | .close => "Close every '\x7b' with a matching '\x7d', or quote literal braces as '\x7b'"
  | .placeholderType => "Give a type after the comma, e.g. \x7bn, number\x7d"
  | .styleName => "Add a style after the second comma, or remove the comma"
  | .offsetNumber => "Write the offset as offset:N with N a non-negative integer"
  | .selector => "Start each case with a selector such as one, =0 or other"
  | .subMessageOpen => "Follow each selector with its message in braces: other \x7b...\x7d"
  | .subMessageClose => "Close each case message with '\x7d', or quote literal braces as '\x7d'"
  | .subMessages _ => "Add a comma followed by the cases, e.g. \x7bn, plural, other \x7b#\x7d\x7d"

end Expectation

/-- How a pattern breaks the grammar. -/
inductive Violation where
  /-- The grammar calls for one thing and something else is there. -/
  | expected (what : Expectation)
  /-- A character is there that nothing can begin with. -/
  | unexpected
  /-- A list of sub-messages lacks the one for everything else. -/
  | missingOther (construct : String)
  /-- Sub-messages nest deeper than the limit. -/
  | tooDeep (limit : Int)
  /-- The number of an offset clause has more than so many digits. -/
  | offsetOutOfRange (maxDigits : Nat)
  deriving DecidableEq, Repr

/-- Why a reader stops. -/
inductive Fault where
  /-- The pattern breaks the grammar. -/
  | violation (cause : Violation)
  /-- A node was to be built that is refused. -/
  | invalidNode (cause : NodeError)
  /-- A character was to be taken where none is left. -/
  | endOfSource
  deriving DecidableEq, Repr

end MessagePattern
