import Mathlib.Data.List.Chain
import MessagePattern.Proofs.Continuation
import MessagePattern.Proofs.Recognition

/-!
# Trees that patterns stand for

A tree can hold more than a pattern can say: empty text, texts side by side, names with
blanks or braces in them, a pound sign where there is no plural number. None of that
is ever read from a pattern. What may stand in braces is left open here as it is in the
grammar, so a tree is looked at one level of cases at a time.

* `IsWord` — what can be a name, a type or a selector;
* `Case.AllWellFormed`, `Element.WellFormed`, `Message.WellFormedOver` — what cases,
  elements and messages have to be like, given what may stand in braces;
* `Message.WellFormed` — messages whose cases nest within a number of levels;
* `Declared.MessageAt.wellFormed` — what the grammar derives is well formed;
* `Parser.parse_wellFormed` — so is what a pattern parses to.
-/

namespace MessagePattern

open Declared

/-! ## Well-formed trees -/

/-- A word is not empty, and has no blank and no character that ends a word. -/
def IsWord (word : String) : Prop :=
  word ≠ "" ∧ ∀ c ∈ word.toList, isWordChar c = true

-- Through `List.all`: a bounded quantifier over characters may be decided by trying every
-- character there is.
instance (word : String) : Decidable (IsWord word) :=
  decidable_of_iff (word ≠ "" ∧ word.toList.all isWordChar = true)
    (and_congr_right' List.all_eq_true)

/-- The cases of a placeholder: selectors are words and differ from one another, and
every message is one that may stand in braces. -/
structure Case.AllWellFormed (inBraces : Message → Prop) (cases : List (Case Element)) :
    Prop where
  word : ∀ c ∈ cases, IsWord c.selector
  distinct : (cases.map (·.selector)).Nodup
  inBraces : ∀ c ∈ cases, inBraces c.message

instance (inBraces : Message → Prop) [DecidablePred inBraces]
    (cases : List (Case Element)) : Decidable (Case.AllWellFormed inBraces cases) :=
  decidable_of_iff
    ((∀ c ∈ cases, IsWord c.selector) ∧ (cases.map (·.selector)).Nodup ∧
      ∀ c ∈ cases, inBraces c.message)
    ⟨fun h => ⟨h.1, h.2.1, h.2.2⟩, fun h => ⟨h.word, h.distinct, h.inBraces⟩⟩

/-- An element, given the messages that may stand in braces under either meaning of the
pound sign. -/
def Element.WellFormed (inBraces : Bool → Message → Prop) (poundIsNumber : Bool) :
    Element → Prop
  | .text value => value ≠ ""
  | .pound => poundIsNumber = true
  | .simple id => IsWord id
  | .typed id type style =>
    IsWord id ∧ IsWord type ∧ type ∉ casedTypes ∧ style ≠ some ""
  | .plural id _ offset cases =>
    IsWord id ∧ (Nat.toDigits 10 offset).length ≤ Numeral.maxDigits ∧
      otherSelector ∈ cases.map (·.selector) ∧ Case.AllWellFormed (inBraces true) cases
  | .select id type cases =>
    IsWord id ∧ IsWord type ∧ isPluralType type = false ∧ type ∉ styledTypes ∧
      cases ≠ [] ∧ (type = selectType → otherSelector ∈ cases.map (·.selector)) ∧
      Case.AllWellFormed (inBraces false) cases

instance (inBraces : Bool → Message → Prop) [∀ b, DecidablePred (inBraces b)]
    (poundIsNumber : Bool) : DecidablePred (Element.WellFormed inBraces poundIsNumber)
  | .text value => inferInstanceAs (Decidable (value ≠ ""))
  | .pound => inferInstanceAs (Decidable (poundIsNumber = true))
  | .simple id => inferInstanceAs (Decidable (IsWord id))
  | .typed .. => inferInstanceAs (Decidable (_ ∧ _ ∧ _ ∧ _))
  | .plural .. => inferInstanceAs (Decidable (_ ∧ _ ∧ _ ∧ Case.AllWellFormed _ _))
  | .select .. =>
    inferInstanceAs (Decidable (_ ∧ _ ∧ _ ∧ _ ∧ _ ∧ _ ∧ Case.AllWellFormed _ _))

/-- Whether an element is text. -/
def Element.isText : Element → Bool
  | .text _ => true
  | _ => false

/-- The texts are the elements that `isText` tells. -/
theorem Element.isText_iff {e : Element} :
    e.isText = true ↔ ∃ value, e = .text value := by
  cases e <;> simp [isText]

namespace Message

/-- A message, given the messages that may stand in braces: no two texts stand side by
side. -/
structure WellFormedOver (inBraces : Bool → Message → Prop) (poundIsNumber : Bool)
    (m : Message) : Prop where
  element : ∀ e ∈ m, e.WellFormed inBraces poundIsNumber
  apart : m.IsChain fun e next => ¬(e.isText && next.isText)

instance (inBraces : Bool → Message → Prop) [∀ b, DecidablePred (inBraces b)]
    (poundIsNumber : Bool) : DecidablePred (WellFormedOver inBraces poundIsNumber) :=
  fun m => decidable_of_iff
    ((∀ e ∈ m, e.WellFormed inBraces poundIsNumber) ∧
      m.IsChain fun e next => ¬(e.isText && next.isText))
    ⟨fun h => ⟨h.1, h.2⟩, fun h => ⟨h.element, h.apart⟩⟩

/-- A message whose cases nest within a number of levels. The pound sign is a number
directly in the cases of a plural placeholder. -/
def WellFormed : Nat → Bool → Message → Prop
  | 0 => WellFormedOver fun _ _ => False
  | levels + 1 => WellFormedOver (WellFormed levels)

instance decidableWellFormed :
    (levels : Nat) → (poundIsNumber : Bool) →
      DecidablePred (WellFormed levels poundIsNumber)
  | 0, poundIsNumber =>
    inferInstanceAs (DecidablePred (WellFormedOver (fun _ _ => False) poundIsNumber))
  | levels + 1, poundIsNumber =>
    have := decidableWellFormed levels
    inferInstanceAs (DecidablePred (WellFormedOver (WellFormed levels) poundIsNumber))

-- The pound sign is no number in a select case.
example : ¬WellFormed 1 false [.select "g" "select" [⟨"other", [.pound]⟩]] := by decide

end Message

/-! ## What is derived is well formed -/

/-- The code points of the digits. -/
theorem toNat_of_isDigit {c : Char} (h : c.isDigit = true) :
    48 ≤ c.toNat ∧ c.toNat ≤ 57 := by
  simp only [Char.isDigit, Bool.and_eq_true, decide_eq_true_eq, ge_iff_le,
    UInt32.le_iff_toNat_le] at h
  exact h

namespace Declared

/-- What is read as a word is a word. -/
theorem Word.isWord {s rest : List Char} {word : String} (h : Word s word rest) :
    IsWord word :=
  ⟨h.2, h.1.inside⟩

/-- An offset has no more digits than its clause, and none is no more than one. -/
theorem Offset.length_toDigits_le {s rest : List Char} {n : Nat} (h : Offset s n rest) :
    (Nat.toDigits 10 n).length ≤ Numeral.maxDigits := by
  cases h with
  | none => decide
  | @clause _ _ digits _ _ _ hRun hSome hShort =>
    -- every digit counts less than ten
    have hDigit : ∀ x ∈ digits.reverse.map fun c => c.toNat - '0'.toNat, x < 10 := by
      intro x hx
      obtain ⟨c, hc, rfl⟩ := List.mem_map.mp hx
      obtain ⟨-, hUpper⟩ := toNat_of_isDigit (hRun.inside c (List.mem_reverse.mp hc))
      show c.toNat - 48 < 10
      omega
    -- a number of so many digits is less than the power of ten
    have hBound := Nat.ofDigits_lt_base_pow_length (by decide) hDigit
    rw [List.length_map, List.length_reverse] at hBound
    calc (Nat.toDigits 10 _).length
        ≤ digits.length := (Nat.length_toDigits_le_iff (by decide) hSome).mpr hBound
      _ ≤ Numeral.maxDigits := hShort

/-- Selectors are words, and what holds of whatever stands in braces holds of the
message of every case. -/
theorem Cases.forall_entry {body : Production Message} {P : Message → Prop}
    (hBody : ∀ s m rest, body s m rest → P m) {s rest : List Char}
    {entries : List (String × Message)} (h : Cases body s entries rest) :
    ∀ entry ∈ entries, IsWord entry.1 ∧ P entry.2 := by
  -- by induction on the cases, as they are read one after another
  induction h with
  | nil => simp
  | cons hWord _ hMessage _ _ ih =>
    intro entry hEntry
    rcases List.mem_cons.mp hEntry with rfl | hTail
    · exact ⟨hWord.isWord, hBody _ _ _ hMessage⟩
    · exact ih entry hTail

/-- Merging leaves only cases that were there. -/
theorem mem_of_mem_merged {entries : List (String × Message)} {c : Case Element}
    (h : c ∈ merged entries) : (c.selector, c.message) ∈ entries := by
  obtain ⟨selector, -, hCase⟩ := List.mem_filterMap.mp h
  obtain ⟨entry, hFound, rfl⟩ := Option.map_eq_some_iff.mp hCase
  have hEntry : entry ∈ entries := List.mem_reverse.mp (List.mem_of_find?_eq_some hFound)
  obtain rfl : entry.1 = selector := by simpa using List.find?_some hFound
  exact hEntry

/-- Merging repeated selectors keeps a list of cases well-formed. -/
theorem allWellFormed_merged {P : Message → Prop} {entries : List (String × Message)}
    (h : ∀ entry ∈ entries, IsWord entry.1 ∧ P entry.2) :
    Case.AllWellFormed P (merged entries) where
  word := fun _ hc => (h _ (mem_of_mem_merged hc)).1
  distinct := by
    rw [selectors_merged]
    exact Keyed.nodup_eraseDups _
  inBraces := fun _ hc => (h _ (mem_of_mem_merged hc)).2

/-- Where cases of one's own are read, there is a case: the brace that is looked for
opens its message. -/
theorem Cases.ne_nil_of_firstBrace {body : Production Message} {s t rest : List Char}
    {entries : List (String × Message)} (h : Cases body s entries ('\x7d' :: rest))
    (hBrace : FirstBrace s ('\x7b' :: t)) : entries ≠ [] := by
  rintro rfl
  cases h with
  | nil =>
    -- the closing brace of the placeholder would come first
    obtain ⟨v, hPassage⟩ := hBrace
    cases hPassage with
    | more hGoesOn => exact absurd hGoesOn (by decide)

section
variable {R : Bool → Production Message} {P : Bool → Message → Prop}
  (hBody : ∀ b s m rest, R b s m rest → P b m)
include hBody

/-- An element with a third part is well-formed if the bodies of its cases are. -/
theorem Argument.wellFormed {id type : String} {s rest : List Char} {e : Element}
    (hId : IsWord id) (hType : IsWord type) (h : Argument R id type s e rest) (b : Bool) :
    e.WellFormed P b := by
  -- what each production demands is what the tree has to have, and merging keeps it
  cases h with
  | plural kind hKind hOffset hCases hOther =>
    exact ⟨hId, hOffset.length_toDigits_le, mem_selectors_merged.mpr hOther,
      allWellFormed_merged (hCases.forall_entry (hBody _))⟩
  | select hSelect hCases hOther =>
    have hNonempty : merged _ ≠ [] := merged_ne_nil (List.ne_nil_of_mem
      (List.mem_map.mp hOther).choose_spec.1)
    exact ⟨hId, hSelect ▸ hType, by decide, by decide, hNonempty,
      fun _ => mem_selectors_merged.mpr hOther,
      allWellFormed_merged (hCases.forall_entry (hBody _))⟩
  | custom hPlain hNotSimple hBrace hCases =>
    -- the first unquoted brace opens a case, so there is one
    exact ⟨hId, hType, Grammar.isPluralType_eq_false hPlain, hNotSimple,
      merged_ne_nil (hCases.ne_nil_of_firstBrace hBrace),
      fun hSelect => absurd hSelect (Grammar.not_mem_casedTypes_iff.mp hPlain).2,
      allWellFormed_merged (hCases.forall_entry (hBody _))⟩
  | styled hPlain hStyle =>
    -- a style that is read is not empty
    exact ⟨hId, hType, hPlain, by simpa using style_value_ne_nil hStyle⟩

/-- A placeholder is well-formed if the bodies of its cases are. -/
theorem Placeholder.wellFormed {s rest : List Char} {e : Element}
    (h : Placeholder R s e rest) (b : Bool) : e.WellFormed P b := by
  cases h with
  | simple _ hId => exact hId.isWord
  | typed _ hId _ _ hType _ hPlain => exact ⟨hId.isWord, hType.isWord, hPlain, by simp⟩
  | full hHeader hArgument =>
    obtain ⟨_, _, _, _, _, _, -, hId, -, -, hType, -, -⟩ := hHeader
    exact hArgument.wellFormed hBody hId.isWord hType.isWord b

end

/-- A placeholder is no text. -/
theorem Placeholder.isText {R : Bool → Production Message} {s rest : List Char}
    {e : Element} (h : Placeholder R s e rest) : e.isText = false := by
  cases h with
  | simple => rfl
  | typed => rfl
  | full _ hArgument => cases hArgument <;> rfl

/-- Elements that begin with text do not begin at a special character. -/
theorem Elements.not_special_of_isText {R : Bool → Production Message} {b : Bool}
    {s rest : List Char} {e : Element} {m : Message} (h : Elements R b s (e :: m) rest)
    (hText : e.isText = true) : ∃ c, s.head? = some c ∧ isSpecial b c = false := by
  cases h with
  | text hRun hNonempty => exact (textRun_value_ne_nil_iff hRun).mp hNonempty
  | pound => exact absurd hText (by decide)
  | placeholder hHere => exact absurd (hHere.isText.symm.trans hText) (by decide)

/-- A message is well-formed if the bodies below it are. -/
theorem Elements.wellFormed {R : Bool → Production Message} {P : Bool → Message → Prop}
    (hBody : ∀ b s m rest, R b s m rest → P b m) {b : Bool} {s rest : List Char}
    {m : Message} (h : Elements R b s m rest) : m.WellFormedOver P b := by
  -- an element is put in front; only text after text could do harm
  have hCons : ∀ {e : Element} {m : Message}, e.WellFormed P b →
      m.WellFormedOver P b → (∀ next ∈ m.head?, ¬(e.isText && next.isText)) →
      Message.WellFormedOver P b (e :: m) := fun hHere hMore hApart =>
    ⟨List.forall_mem_cons.mpr ⟨hHere, hMore.element⟩,
      List.isChain_cons.mpr ⟨hApart, hMore.apart⟩⟩
  induction h with
  | nil => exact ⟨by simp, .nil⟩
  | @text s v t m rest hRun hNonempty hMore ih =>
    refine hCons (by simpa [Element.WellFormed] using hNonempty) ih ?_
    intro next hNext hBoth
    have hText : next.isText = true := (Bool.and_eq_true_iff.mp hBoth).2
    obtain ⟨m, rfl⟩ := List.head?_eq_some_iff.mp hNext
    -- text goes on up to a special character, where no other text begins
    obtain ⟨c, hHead, hPlain⟩ := hMore.not_special_of_isText hText
    have hStop : isSpecial b c = true := Passage.stops_of_rest hRun c hHead
    exact absurd (hPlain.symm.trans hStop) (by decide)
  | pound hPound _ ih =>
    exact hCons hPound ih fun _ _ => by simp [Element.isText]
  | placeholder hHere _ ih =>
    exact hCons (hHere.wellFormed hBody b) ih fun _ _ => by simp [hHere.isText]

/-- What the grammar derives is well formed, and nests within the same levels. -/
theorem MessageAt.wellFormed {levels : Nat} {b : Bool} {s rest : List Char} {m : Message}
    (h : MessageAt levels b s m rest) : m.WellFormed levels b := by
  -- by induction on the levels: what stands in braces is one level down
  induction levels generalizing b s m rest with
  | zero => exact Elements.wellFormed (fun _ _ _ _ hNone => hNone.elim) h
  | succ levels ih => exact Elements.wellFormed (fun _ _ _ _ hMessage => ih hMessage) h

end Declared

namespace Parser

/-- A pattern is read as a message exactly when the grammar derives the message. -/
theorem reply_eq_ok_iff (p : Parser) (s : String) (m : Message) :
    (p.reply s).result = .ok m ↔ Derives p.maxNesting.toNat s m := by
  have hLevels : p.rootContext.levelsLeft = p.maxNesting.toNat := by
    rw [Context.levelsLeft, rootContext, Int.sub_zero]
  have hDepth : 0 ≤ p.rootContext.depth := Int.le_refl 0
  have hMessage := Grammar.accepts_message hDepth s.toList m []
  rw [hLevels] at hMessage
  refine ⟨fun hOk => (hMessage.mp ⟨hOk, reply_rest_of_ok hOk⟩).1, fun hDerives => ?_⟩
  exact (hMessage.mpr ⟨hDerives, rfl, fun _ => rfl⟩).1

/-- What a pattern parses to is derived from its text. -/
theorem derives_of_parse {p : Parser} {pattern : PatternValue} {m : Message}
    (h : p.parse pattern = .ok m) : Derives p.maxNesting.toNat pattern.toText m := by
  have hShort : ¬(0 < p.maxLength ∧ p.maxLength < pattern.toText.length) := by
    intro hLong
    rw [parse, parseInto_of_long hLong] at h
    simp at h
  exact (p.reply_eq_ok_iff _ m).mp ((parse_eq_ok_iff hShort).mp h)

/-- **A parse gives a well-formed tree.** Whatever the limit on the length of patterns:
in the message that a pattern parses to, texts are not empty and no two of them stand
side by side; names, types and selectors are words; pound signs stand directly in plural
cases only; selectors differ within a placeholder; plural and select placeholders have
the cases and the types that they should, an offset has few enough digits, and a style
that is given is not empty; and cases nest within the limit. -/
theorem parse_wellFormed (p : Parser) (pattern : PatternValue) (m : Message)
    (h : p.parse pattern = .ok m) : m.WellFormed p.maxNesting.toNat false := by
  have hShort : ¬(0 < p.maxLength ∧ p.maxLength < pattern.toText.length) := by
    intro hLong
    rw [parse, parseInto_of_long hLong] at h
    simp at h
  exact ((p.reply_eq_ok_iff _ m).mp ((parse_eq_ok_iff hShort).mp h)).wellFormed

/-- A pound sign in a plural case, and another one that is text again in a select case
below it. -/
theorem wellFormed_of_select_in_plural :
    (Parser.mk 80 2).parse (.text <|
        "it''s \x7bn,plural,offset:1 one\x7b#\x7bg,select,other\x7b#\x7d\x7d\x7d" ++
        "other\x7b\x7d\x7d") =
      .ok [.text "it's ", .plural "n" .cardinal 1
        [⟨"one", [.pound, .select "g" "select" [⟨"other", [.text "#"]⟩]]⟩,
          ⟨"other", []⟩]] ∧
      Message.WellFormed 2 false [.text "it's ", .plural "n" .cardinal 1
        [⟨"one", [.pound, .select "g" "select" [⟨"other", [.text "#"]⟩]]⟩,
          ⟨"other", []⟩]] := by
  refine ⟨?parsed, parse_wellFormed ⟨80, 2⟩ _ _ ?parsed⟩
  decide +kernel

end Parser

end MessagePattern
