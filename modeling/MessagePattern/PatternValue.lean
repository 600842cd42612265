import MessagePattern.Decimal.WebText

/-!
# Pattern values

Anything may be offered as a pattern; it is turned into text before it is read. Numbers are written in
the notation of the web, and a pattern that is left out reads as `undefined`.

* `PatternValue` — what can be offered;
* `PatternValue.toText` — the text that is read.
-/

namespace MessagePattern

/-- What can be offered as a pattern. -/
inductive PatternValue where
  /-- A text, which is the pattern. -/
  | text (s : String)
  /-- Nothing was offered. -/
  | missing
  /-- The value that stands for no value. -/
  | null
  | truth (b : Bool)
  | integer (n : Int)
  | float (number : FloatClass)
  /-- Any other value, which gives its own text. -/
  | other (shown : String)
  deriving DecidableEq, Repr

/-- The text of a floating point number. Both zeros are written alike. -/
def FloatClass.text : FloatClass → String
  | .nan => "NaN"
  | .infinity false => "Infinity"
  | .infinity true => "-Infinity"
  | .zero _ => "0"
  | .finite negative magnitude => String.ofList (webText negative magnitude)

/-- The text that is read as the pattern. Integers of more than 4300 digits are left out: the host
refuses to write them out, and here they are written like any other. -/
def PatternValue.toText : PatternValue → String
  | .text s => s
  | .missing => "undefined"
  | .null => "null"
  | .truth true => "true"
  | .truth false => "false"
  | .integer n => toString n
  | .float number => number.text
  | .other shown => shown

end MessagePattern
