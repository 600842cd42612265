/-!
# JSON text

The JSON values that the library writes, and their text on one line: a blank after each comma and
colon, members in the order given, and no escapes but those that JSON requires. Characters beyond ASCII
stand for themselves.

* `Json` — strings, integers, arrays and objects;
* `Json.chars` — the text of a value.
-/

namespace MessagePattern

/-- A JSON value. -/
inductive Json where
  | str (s : String)
  | int (n : Int)
  | arr (items : List Json)
  /-- An object, its members in order. -/
  | obj (members : List (String × Json))

namespace Json

/-- The hexadecimal digit of a number below sixteen. -/
def hexDigit (n : Nat) : Char := Nat.digitChar n

/-- A character as a string writes it. -/
def escaped (c : Char) : List Char :=
  if c = '"' then ['\\', '"']
  else if c = '\\' then ['\\', '\\']
  else if c = '\n' then ['\\', 'n']
  else if c = '\r' then ['\\', 'r']
  else if c = '\t' then ['\\', 't']
  else if c = '\x08' then ['\\', 'b']
  else if c = '\x0c' then ['\\', 'f']
  else if c.toNat < 0x20 then
    ['\\', 'u', '0', '0', hexDigit (c.toNat / 16), hexDigit (c.toNat % 16)]
  else [c]

/-- The text of a string. -/
def quote (s : String) : List Char :=
  '"' :: (s.toList.flatMap escaped ++ ['"'])

mutual

/-- The text of a value. -/
def chars : Json → List Char
  | .str s => quote s
  | .int n => (toString n).toList
  | .arr items => '[' :: (itemChars items ++ [']'])
  | .obj members => '\x7b' :: (memberChars members ++ ['\x7d'])

/-- The text between the brackets of an array. -/
def itemChars : List Json → List Char
  | [] => []
  | [item] => chars item
  | item :: more => chars item ++ (',' :: ' ' :: itemChars more)

/-- The text between the braces of an object. -/
def memberChars : List (String × Json) → List Char
  | [] => []
  | [(key, value)] => quote key ++ (':' :: ' ' :: chars value)
  | (key, value) :: more => quote key ++ (':' :: ' ' :: (chars value ++ (',' :: ' ' :: memberChars more)))

end

/-- The text of a value. -/
def text (j : Json) : String := String.ofList j.chars

/-- The member of an object for an optional text; there is none for no text. -/
def optional (key : String) (text : Option String) : List (String × Json) :=
  match text with
  | some s => [(key, .str s)]
  | none => []

end Json

end MessagePattern
