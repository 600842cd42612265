import Mathlib.Data.Nat.Digits.Defs
import MessagePattern.Grammar

/-!
# The grammar, declared

The pattern language as rules of derivation, with no reader in sight. A production
relates a text to what its front part stands for and to the text after that part, so
a rule may look at the character that comes next, and "as far as it goes" can be
said.

* `Run`, `Blanks`, `Word` — runs of characters, as far as they go;
* `Quoted`, `Piece`, `Passage` — the rule for apostrophes, and text up to the next
  unquoted stop;
* `Style` — the third part of a formatted placeholder, without the blanks after it;
* `Cases`, `Argument`, `Placeholder`, `Elements` — the productions over sub-messages;
* `MessageAt`, `Derives` — messages whose cases nest within a number of levels.
-/

namespace MessagePattern.Declared

/-- A relation between a text, what its front part stands for, and the text after
that part. -/
abbrev Production (α : Type) := List Char → α → List Char → Prop

/-! ## Runs -/

/-- A run of characters of a class at the front of a text, as far as it goes. -/
structure Run (test : Char → Bool) (s run rest : List Char) : Prop where
  split : s = run ++ rest
  inside : ∀ c ∈ run, test c = true
  outside : ∀ c ∈ rest.head?, test c = false

/-- Optional blanks. -/
def Blanks (s rest : List Char) : Prop := ∃ run, Run isBlank s run rest

/-- Whether a character can stand in a word. -/
def isWordChar (c : Char) : Bool :=
    !isBlank c && !(['\x7b', '\x7d', ',', '#', '\''].contains c)

/-- A word, which is not empty. -/
def Word : Production String := fun s word rest =>
  Run isWordChar s word.toList rest ∧ word ≠ ""

/-- A character after white space, if there is any. -/
def Mark (c : Char) (s rest : List Char) : Prop := Blanks s (c :: rest)

/-! ## Apostrophes -/

/-- A quoted run after its opening apostrophe: two apostrophes stand for one, and a
single one, or the end of the pattern, ends the run. -/
inductive Quoted : Production (List Char)
  | unclosed : Quoted [] [] []
  | close {s} : s.head? ≠ some '\'' → Quoted ('\'' :: s) [] s
  | pair {s v rest} : Quoted s v rest → Quoted ('\'' :: '\'' :: s) ('\'' :: v) rest
  | char {c s v rest} : c ≠ '\'' → Quoted s v rest → Quoted (c :: s) (c :: v) rest

/-- What is read as a whole: a character that stands for itself, two apostrophes, a
quoted run, or an apostrophe that opens none. A run is opened before a character
that can be quoted. -/
inductive Piece (opens : Char → Bool) : Production (List Char)
  | plain {c s} : c ≠ '\'' → Piece opens (c :: s) [c] s
  | pair {s} : Piece opens ('\'' :: '\'' :: s) ['\''] s
  | quoted {c s v rest} : c ≠ '\'' → opens c = true → Quoted (c :: s) v rest →
      Piece opens ('\'' :: c :: s) v rest
  | lone {s} : (∀ c ∈ s.head?, c ≠ '\'' ∧ opens c = false) →
      Piece opens ('\'' :: s) ['\''] s

/-- Pieces up to the next unquoted character of a class, or to the end of the
pattern. -/
inductive Passage (stops opens : Char → Bool) : Production (List Char)
  | stop {s} : (∀ c ∈ s.head?, stops c = true) → Passage stops opens s [] s
  | more {c s v t w rest} : stops c = false → Piece opens (c :: s) v t →
      Passage stops opens t w rest → Passage stops opens (c :: s) (v ++ w) rest

/-- Message text up to the next special character. Only special characters can be
quoted. -/
def TextRun (poundIsNumber : Bool) : Production (List Char) :=
  Passage (isSpecial poundIsNumber) (isSpecial poundIsNumber)

/-- The text from the first unquoted brace on. In a style every apostrophe but the
last of a pattern quotes. -/
def FirstBrace (s rest : List Char) : Prop :=
  ∃ v, Passage isBrace (fun _ => true) s v rest

/-- A style: pieces up to the last one before a brace that is no unquoted blank. -/
inductive Style : Production (List Char)
  | last {c s v rest t} : isBrace c = false → isBlank c = false →
      Piece (fun _ => true) (c :: s) v rest → Blanks rest t →
      (∀ b ∈ t.head?, isBrace b = true) → Style (c :: s) v rest
  | more {c s v t w rest} : isBrace c = false → Piece (fun _ => true) (c :: s) v t →
      Style t w rest → Style (c :: s) (v ++ w) rest

/-! ## Placeholders -/

/-- The argument types that always take cases. -/
def casedTypes : List String := ["plural", "selectordinal", "select"]

/-- The argument types that never take cases. -/
def styledTypes : List String := ["number", "date", "time", "ordinal", "duration", "spellout"]

/-- The name of an argument, its type, and the comma after it. -/
def Header (id type : String) (s rest : List Char) : Prop :=
  ∃ t₁ t₂ t₃ t₄ t₅ t₆, Blanks s t₁ ∧ Word t₁ id t₂ ∧ Mark ',' t₂ t₃ ∧ Blanks t₃ t₄ ∧
    Word t₄ type t₅ ∧ Mark ',' t₅ t₆ ∧ Blanks t₆ rest

/-- An optional offset clause. The clause is taken wherever its keyword and colon
stand. -/
inductive Offset : Production Nat
  | clause {s t₁ digits t₂ rest} : Blanks s t₁ → Run Char.isDigit t₁ digits t₂ →
      1 ≤ digits.length → digits.length ≤ 4300 → Blanks t₂ rest →
      Offset ("offset:".toList ++ s)
        (Nat.ofDigits 10 (digits.reverse.map fun c => c.toNat - '0'.toNat)) rest
  | none {s} : ¬"offset:".toList <+: s → Offset s 0 s

/-- Selectors, each with its message in braces. -/
inductive Cases (body : Production Message) : Production (List (String × Message))
  | nil {s} : Cases body s [] s
  | cons {s selector t₁ t₂ m t₃ t₄ entries rest} : Word s selector t₁ →
      Mark '\x7b' t₁ t₂ → body t₂ m ('\x7d' :: t₃) → Blanks t₃ t₄ →
      Cases body t₄ entries rest → Cases body s ((selector, m) :: entries) rest

/-- The cases that a list of selectors and messages stands for: each selector once,
in the order of their first places, with the last of its messages. -/
def merged (entries : List (String × Message)) : List (Case Element) :=
  (entries.map (·.1)).eraseDups.filterMap fun selector =>
    (entries.reverse.find? fun entry => entry.1 == selector).map fun entry =>
      ⟨selector, entry.2⟩

/-- What follows the name of an argument, its type and two commas, given the
messages that may stand in braces. It goes up to the closing brace of the
placeholder. -/
inductive Argument (body : Bool → Production Message) (id type : String) :
    Production Element
  | plural {s n t entries rest} (kind : PluralKind) : type = kind.name → Offset s n t →
      Cases (body true) t entries ('\x7d' :: rest) → "other" ∈ entries.map (·.1) →
      Argument body id type s (.plural id kind n (merged entries)) rest
  | select {s entries rest} : type = "select" →
      Cases (body false) s entries ('\x7d' :: rest) → "other" ∈ entries.map (·.1) →
      Argument body id type s (.select id "select" (merged entries)) rest
  | custom {s t entries rest} : type ∉ casedTypes → type ∉ styledTypes →
      FirstBrace s ('\x7b' :: t) → Cases (body false) s entries ('\x7d' :: rest) →
      Argument body id type s (.select id type (merged entries)) rest
  | styled {s v t rest} : type ∉ casedTypes → Style s v t → Mark '\x7d' t rest →
      Argument body id type s (.typed id type (some (String.ofList v))) rest

/-- A placeholder after its opening brace, given the messages that may stand in
braces. -/
inductive Placeholder (body : Bool → Production Message) : Production Element
  | simple {s t₁ id t₂ rest} : Blanks s t₁ → Word t₁ id t₂ → Mark '\x7d' t₂ rest →
      Placeholder body s (.simple id) rest
  | typed {s t₁ id t₂ t₃ t₄ type t₅ rest} : Blanks s t₁ → Word t₁ id t₂ → Mark ',' t₂ t₃ →
      Blanks t₃ t₄ → Word t₄ type t₅ → Mark '\x7d' t₅ rest → type ∉ casedTypes →
      Placeholder body s (.typed id type none) rest
  | full {s id type t e rest} : Header id type s t → Argument body id type t e rest →
      Placeholder body s e rest

/-! ## Messages -/

/-- The elements of a message: text as far as it goes, pound signs where they stand
for a number, and placeholders. -/
inductive Elements (body : Bool → Production Message) (poundIsNumber : Bool) :
    Production Message
  | nil {s} : Elements body poundIsNumber s [] s
  | text {s v t m rest} : TextRun poundIsNumber s v t → v ≠ [] →
      Elements body poundIsNumber t m rest →
      Elements body poundIsNumber s (.text (String.ofList v) :: m) rest
  | pound {s m rest} : poundIsNumber = true → Elements body poundIsNumber s m rest →
      Elements body poundIsNumber ('#' :: s) (.pound :: m) rest
  | placeholder {s e t m rest} : Placeholder body s e t →
      Elements body poundIsNumber t m rest →
      Elements body poundIsNumber ('\x7b' :: s) (e :: m) rest

/-- A message whose cases nest within a number of levels. -/
def MessageAt : Nat → Bool → Production Message
  | 0 => Elements fun _ _ _ _ => False
  | levels + 1 => Elements (MessageAt levels)

/-- What may stand in braces in a message whose cases nest within a number of levels. -/
def InBraces : Nat → Bool → Production Message
  | 0 => fun _ _ _ _ => False
  | levels + 1 => MessageAt levels

theorem messageAt_eq (levels : Nat) : MessageAt levels = Elements (InBraces levels) := by
  cases levels <;> rfl

/-- A pattern stands for a message whose cases nest within a number of levels. -/
def Derives (levels : Nat) (pattern : String) (m : Message) : Prop :=
  MessageAt levels false pattern.toList m []

end MessagePattern.Declared
