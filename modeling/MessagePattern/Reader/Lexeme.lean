import MessagePattern.Numeral
import MessagePattern.Quoting
import MessagePattern.Reader.Basic

/-!
# Lexemes

The readers that consume text: blanks, words, message text, offset clauses and styles.

* `Reader.space` — a run of blanks;
* `Reader.word`, `Reader.name` — a run of characters that are neither blank nor given a meaning by
  placeholders;
* `Reader.text` — message text up to the next special character;
* `Reader.offsetClause?` — the clause that shifts a plural number, where one stands;
* `Reader.styleScan`, `Reader.commitStyle` — a style, looked at and then read.
-/

namespace MessagePattern

/-- Whether a character ends a word inside a placeholder. -/
def isWordBreak (c : Char) : Bool :=
  c == '\x7b' || c == '\x7d' || c == '#' || c == ',' || c == '\'' || isBlank c

namespace Reader

/-- The number of characters at the front of a text that pass a test. -/
def widthWhile (test : Char → Bool) (s : List Char) : Nat :=
  (s.takeWhile test).length

/-- Reads a run of blanks. -/
def space : Reader Unit := do
  let _ ← lexeme .space (widthWhile isBlank)

/-- Reads a word, which may be empty. -/
def word (kind : Token.Kind) : Reader String :=
  lexeme kind (widthWhile fun c => !isWordBreak c)

/-- Reads a word that the grammar calls for. -/
def name (kind : Token.Kind) (what : Expectation) : Reader String := do
  let word ← word kind
  require (!word.isEmpty) (.expected what)
  return word

/-- Reads message text up to the next unquoted special character and resolves its quoting. -/
def text (poundIsNumber : Bool) : Reader String := do
  let glyphs := ((Dialect.text poundIsNumber).scan false (← lookAhead)).glyphs
  let _ ← lexeme .text fun _ => (Glyph.sourceOf glyphs).length
  return String.ofList (Glyph.valueOf glyphs)

/-- The keyword of an offset clause. -/
def offsetKeyword : List Char := "offset".toList

/-- Reads the offset clause of a plural placeholder, if the text begins with its keyword and colon.
The number has decimal digits of ASCII only, and not too many of them. -/
def offsetClause? : Reader (Option Nat) := do
  if (offsetKeyword ++ [':']).isPrefixOf (← lookAhead) then
    let _ ← lexeme .offset fun _ => offsetKeyword.length
    let _ ← lexeme .colon fun _ => 1
    space
    let digits := (← lookAhead).takeWhile Char.isDigit
    require (!digits.isEmpty) (.expected .offsetNumber)
    match Numeral.read? digits with
    | none => reject (.offsetOutOfRange Numeral.maxDigits)
    | some n =>
      let _ ← lexeme .number fun _ => digits.length
      return some n
  else
    return none

/-- Looks at the style at the front of the unread text. -/
def styleScan : Reader StyleScan := do
  return StyleScan.ofSource (← lookAhead)

/-- Reads the source text of a style and gives the style with quoting resolved. -/
def commitStyle (scan : StyleScan) : Reader String where
  run s := ⟨.ok scan.value, [⟨.style, String.ofList scan.source⟩], s.drop scan.source.length⟩
  length_rest_le s := by simp

end Reader

end MessagePattern
