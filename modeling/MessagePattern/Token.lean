/-!
# Tokens

The units that reading a pattern logs, in source order. A token keeps the stretch of source text that
it stands for, with quoting unresolved, so the texts of a log are pieces of the pattern.

* `Token.Kind` — what part of the pattern a stretch is;
* `Token` — a kind and its source text;
* `Token.joined` — the source text that a log covers.
-/

namespace MessagePattern

namespace Token

/-- What part of a pattern a stretch of source text is. -/
inductive Kind where
  /-- A run of message text. -/
  | text
  /-- The brace that opens a placeholder or a sub-message. -/
  | openBrace
  /-- The brace that closes a placeholder or a sub-message. -/
  | closeBrace
  | comma
  /-- The colon of an offset clause. -/
  | colon
  | id
  | type
  | style
  | selector
  /-- The keyword of an offset clause. -/
  | offset
  /-- The number of an offset clause. -/
  | number
  /-- A run of blanks inside a placeholder. -/
  | space
  /-- The sign that stands for the number in a plural sub-message. -/
  | pound
  deriving DecidableEq, Repr

/-- All kinds. -/
def Kind.all : List Kind :=
  [.text, .openBrace, .closeBrace, .comma, .colon, .id, .type, .style, .selector, .offset, .number,
   .space, .pound]

/-- The written name of a kind; punctuation is named by itself. -/
def Kind.name : Kind → String
  | .text => "text"
  | .openBrace => "\x7b"
  | .closeBrace => "\x7d"
  | .comma => ","
  | .colon => ":"
  | .id => "id"
  | .type => "type"
  | .style => "style"
  | .selector => "selector"
  | .offset => "offset"
  | .number => "number"
  | .space => "space"
  | .pound => "#"

/-- The kind with a given written name. -/
def Kind.ofName? (name : String) : Option Kind :=
  Kind.all.find? fun kind => kind.name == name

end Token

/-- A stretch of source text and what part of the pattern it is. -/
structure Token where
  /-- What part of the pattern the text is. -/
  kind : Token.Kind
  /-- The source text, quoting unresolved. -/
  text : String
  deriving DecidableEq, Repr

/-- The source text that a token log covers. -/
def Token.joined (log : List Token) : List Char :=
  log.flatMap fun token => token.text.toList

@[simp] theorem Token.joined_nil : Token.joined [] = [] := rfl

@[simp] theorem Token.joined_append (log more : List Token) :
    Token.joined (log ++ more) = Token.joined log ++ Token.joined more := by
  simp [Token.joined]

end MessagePattern
