import MessagePattern.Diagnostic.Layout
import MessagePattern.Proofs.JsonText
import MessagePattern.Proofs.Keyed
import MessagePattern.Proofs.Positions

/-!
# The JSON text of a diagnostic tells the diagnostic

A JSON text has no control characters: strings escape them, and nothing else has any, so the text
is one line. And since the text determines the value, it is enough to read the diagnostic back
from the value. The members of the object are found by their keys, whichever of them are left out;
only an empty hint or link cannot be told from none.

* `Json.printable_chars`, `Json.lines_text` — JSON texts have no control characters;
* `Diagnostic.ofJson?`, `Diagnostic.ofJson?_members` — the diagnostic that a JSON object tells is
  the one that was written, without empty texts;
* `Diagnostic.Agrees` — diagnostics that differ in empty hints and links at most;
* `Diagnostic.Style.render_json_faithful` — the JSON texts of the diagnostics that agree are
  the same, and no others are.
-/

namespace MessagePattern

/-! ## Control characters -/

/-- A text without control characters. -/
def Printable (s : List Char) : Prop := ∀ c ∈ s, 0x20 ≤ c.toNat

theorem printable_nil : Printable [] := List.forall_mem_nil _

theorem printable_cons {c : Char} {s : List Char} :
    Printable (c :: s) ↔ 0x20 ≤ c.toNat ∧ Printable s := List.forall_mem_cons

theorem printable_append {s t : List Char} :
    Printable (s ++ t) ↔ Printable s ∧ Printable t := List.forall_mem_append

theorem printable_between {first last : Char} (hFirst : 0x20 ≤ first.toNat)
    (hLast : 0x20 ≤ last.toNat) {s : List Char} (h : Printable s) :
    Printable (first :: (s ++ [last])) :=
  printable_cons.mpr ⟨hFirst, printable_append.mpr ⟨h, printable_cons.mpr ⟨hLast, printable_nil⟩⟩⟩

theorem printable_punctuated {mark : Char} (hMark : 0x20 ≤ mark.toNat) {s t : List Char}
    (hs : Printable s) (ht : Printable t) : Printable (s ++ mark :: ' ' :: t) :=
  printable_append.mpr ⟨hs, printable_cons.mpr ⟨hMark, printable_cons.mpr ⟨by decide, ht⟩⟩⟩

namespace Json

theorem printable_hexDigit : ∀ n < 16, 0x20 ≤ (hexDigit n).toNat := by decide

/-- Control characters are escaped, and the escapes have none. -/
theorem printable_escaped (c : Char) : Printable (escaped c) := by
  unfold escaped
  -- the short escapes
  iterate 7
    split
    · simp [Printable]
  split
  · next hControl =>
    have hHigh := printable_hexDigit (c.toNat / 16) (by omega)
    have hLow := printable_hexDigit (c.toNat % 16) (by omega)
    simp [Printable, hHigh, hLow]
  · next hPlain => exact printable_cons.mpr ⟨Nat.le_of_not_lt hPlain, printable_nil⟩

/-- A quoted text is printable, as control characters are escaped. -/
theorem printable_quote (s : String) : Printable (quote s) := by
  refine printable_between (by decide) (by decide) fun d hMem => ?_
  obtain ⟨c, -, hHere⟩ := List.mem_flatMap.mp hMem
  exact printable_escaped c d hHere

theorem printable_toDigits (n : Nat) : Printable (Nat.toDigits 10 n) := by
  intro c hMem
  have hDigit := Nat.isDigit_of_mem_toDigits (by decide) (by decide) hMem
  exact le_trans (by decide) (Char.isDigit_iff_toNat.mp hDigit).1

/-- A number is printable. -/
theorem printable_toString (n : Int) : Printable (toString n).toList := by
  cases n with
  | ofNat n =>
    rw [toList_toString_ofNat]
    exact printable_toDigits n
  | negSucc n =>
    rw [toList_toString_negSucc]
    exact printable_cons.mpr ⟨by decide, printable_toDigits _⟩

/-- Texts with commas between them have no other characters than the texts, but for commas and
blanks. -/
theorem printable_separated {α : Type} {form : α → List Char} {l : List α}
    (h : ∀ a ∈ l, Printable (form a)) : Printable (separated form l) := by
  induction l with
  | nil => exact printable_nil
  | cons a more ih =>
    obtain ⟨hHere, hMore⟩ := List.forall_mem_cons.mp h
    cases more with
    | nil => exact hHere
    | cons b more => exact printable_punctuated (by decide) hHere (ih hMore)

/-- **JSON texts have no control characters.** -/
theorem printable_chars (j : Json) : Printable (chars j) := by
  induction j using inductionOn with
  | str s =>
    rw [chars]
    exact printable_quote s
  | int n =>
    rw [chars]
    exact printable_toString n
  | arr items ih =>
    rw [chars, itemChars_eq]
    exact printable_between (by decide) (by decide) (printable_separated ih)
  | obj members ih =>
    -- a member is a quoted key, a colon and a value
    have hMember : ∀ member ∈ members, Printable (memberText member) := fun member hMem =>
      printable_punctuated (by decide) (printable_quote _) (ih member hMem)
    rw [chars, memberChars_eq]
    exact printable_between (by decide) (by decide) (printable_separated hMember)

theorem printable_text (j : Json) : Printable j.text.toList := by
  rw [text, String.toList_ofList]
  exact printable_chars j

/-- A JSON text is one line. -/
theorem lines_text (j : Json) : lines j.text.toList = [j.text.toList] := by
  refine lines_of_not_mem fun hMem => ?_
  exact absurd (printable_text j '\n' hMem) (by decide)

/-! ## Members of objects -/

/-- The value under a key of an object. -/
def member? (j : Json) (key : String) : Option Json :=
  match j with
  | .obj members => Keyed.find? key members
  | _ => none

/-- The text that a value is. -/
def asText? : Json → Option String
  | .str s => some s
  | _ => none

/-- The number that a value is. -/
def asNumber? : Json → Option Int
  | .int n => some n
  | _ => none

/-- The text under a key of an object. -/
def textAt? (j : Json) (key : String) : Option String := (j.member? key).bind asText?

/-- The number under a key of an object. -/
def numberAt? (j : Json) (key : String) : Option Int := (j.member? key).bind asNumber?

/-- A text that is made a value is read back as a text. -/
theorem bind_asText?_map (text : Option String) : (text.map Json.str).bind asText? = text := by
  cases text <;> rfl

/-- A member that may be missing is found by its key if it is there. -/
theorem find?_optional (key k : String) (text : Option String) :
    Keyed.find? key (optional k text) = if k = key then text.map .str else none := by
  cases text with
  | none => simp [optional, Keyed.find?]
  | some s => rw [optional, Keyed.find?_cons]; rfl

end Json

/-! ## Reading a diagnostic back -/

/-- The numbers of a span make up a span. -/
theorem Span.ofInts?_self (span : Span) :
    Span.ofInts? span.start span.stop span.line span.column = .ok span := by
  have hStop := span.start_le_stop
  have hLine := span.one_le_line
  have hColumn := span.one_le_column
  rw [Span.ofInts?, dif_neg (by omega), dif_neg (by omega), dif_neg (by omega),
    dif_neg (by omega)]
  rfl

namespace Diagnostic

/-- A code is read back from its name. -/
theorem Code.ofName?_name (code : Code) : Code.ofName? code.name = some code := by
  cases code <;> decide

/-- The severity with a given label. -/
def Severity.ofLabel? (label : String) : Option Severity :=
  [Severity.error, .warning].find? fun severity => severity.label == label

/-- A severity is read back from its label. -/
theorem Severity.ofLabel?_label (severity : Severity) :
    Severity.ofLabel? severity.label = some severity := by
  cases severity <;> decide

/-- The span that an object tells. -/
def spanOfJson? (j : Json) : Option Span := do
  let line ← j.numberAt? "line"
  let column ← j.numberAt? "column"
  let start ← j.numberAt? "start"
  let stop ← j.numberAt? "end"
  (Span.ofInts? start stop line column).toOption

/-- The diagnostic that an object tells. -/
def ofJson? (j : Json) : Option Diagnostic := do
  let code ← (j.textAt? "code").bind Code.ofName?
  let message ← j.textAt? "message"
  let severity ← (j.textAt? "severity").bind Severity.ofLabel?
  some {
    code := code
    message := message
    severity := severity
    span := spanOfJson? j
    expected := j.textAt? "expected"
    found := j.textAt? "found"
    hint := j.textAt? "hint"
    helpUrl := j.textAt? "help_url" }

/-! ### Empty texts -/

/-- The empty text is dropped, and so is no text. -/
theorem nonempty?_eq (text : Option String) :
    nonempty? text = if text.getD "" = "" then none else some (text.getD "") := by
  cases text with
  | none => rfl
  | some s => simp [nonempty?, Option.filter]

/-- Dropping the empty text is not told by a default that is empty. -/
theorem getD_nonempty? (text : Option String) : (nonempty? text).getD "" = text.getD "" := by
  rw [nonempty?_eq]
  split
  · next hEmpty => exact hEmpty.symm
  · rfl

/-- Counting an empty text as none confuses no other two texts. -/
theorem nonempty?_eq_iff {a b : Option String} :
    nonempty? a = nonempty? b ↔ a.getD "" = b.getD "" := by
  constructor
  · intro h
    rw [← getD_nonempty? a, h, getD_nonempty?]
  · intro h
    rw [nonempty?_eq, h, ← nonempty?_eq]

/-- A diagnostic without empty hints and links. -/
def withoutEmpty (d : Diagnostic) : Diagnostic :=
  { d with hint := nonempty? d.hint, helpUrl := nonempty? d.helpUrl }

/-! ### The members of a diagnostic -/

/-- The members that a span contributes. -/
def spanMembers : Option Span → List (String × Json)
  | none => []
  | some span => [("line", .int span.line), ("column", .int span.column),
      ("start", .int span.start), ("end", .int span.stop)]

/-- The members of the object of a diagnostic whose texts are not cut. -/
def members (d : Diagnostic) : List (String × Json) :=
  [("code", .str d.code.name), ("code_value", .int d.code.number), ("message", .str d.message),
    ("severity", .str d.severity.label)] ++ spanMembers d.span ++
    Json.optional "expected" d.expected ++ Json.optional "found" d.found ++
    Json.optional "hint" (nonempty? d.hint) ++ Json.optional "help_url" (nonempty? d.helpUrl)

/-- A span contributes members under keys of its own. -/
theorem find?_spanMembers_of_not_mem {key : String} (span : Option Span)
    (h : key ∉ ["line", "column", "start", "end"]) :
    Keyed.find? key (spanMembers span) = none := by
  cases span with
  | none => rfl
  | some span =>
    simp only [List.mem_cons, List.not_mem_nil, or_false, not_or] at h
    simp [spanMembers, Keyed.find?, Ne.symm h.1, Ne.symm h.2.1, Ne.symm h.2.2.1, Ne.symm h.2.2.2]

/-- The numbers under the keys of a span are those of the span. -/
theorem spanOfJson?_members (d : Diagnostic) : spanOfJson? (.obj d.members) = d.span := by
  cases hSpan : d.span with
  | none =>
    -- the first number is missing already
    have hLine : (Json.obj d.members).numberAt? "line" = none := by
      simp [members, hSpan, spanMembers, Json.numberAt?, Json.member?, Keyed.find?_append,
        Keyed.find?_cons, Json.find?_optional]
    rw [spanOfJson?, hLine]
    rfl
  | some span =>
    -- all four numbers are there, and they make up the span
    have hNumbers : (Json.obj d.members).numberAt? "line" = some (span.line : Int) ∧
        (Json.obj d.members).numberAt? "column" = some (span.column : Int) ∧
        (Json.obj d.members).numberAt? "start" = some (span.start : Int) ∧
        (Json.obj d.members).numberAt? "end" = some (span.stop : Int) := by
      simp [members, hSpan, spanMembers, Json.numberAt?, Json.member?, Keyed.find?_cons,
        Json.asNumber?]
    obtain ⟨hLine, hColumn, hStart, hStop⟩ := hNumbers
    rw [spanOfJson?, hLine, hColumn, hStart, hStop]
    show (Span.ofInts? _ _ _ _).toOption = _
    rw [Span.ofInts?_self]
    rfl

/-- The members of a diagnostic tell it, up to empty hints and links. -/
theorem ofJson?_members (d : Diagnostic) : ofJson? (.obj d.members) = some d.withoutEmpty := by
  -- the keys of texts are none of those of the span, so they are found around its members
  have hSpan : ∀ key ∈ ["code", "message", "severity", "expected", "found", "hint", "help_url"],
      Keyed.find? key (spanMembers d.span) = none := fun key hKey =>
    find?_spanMembers_of_not_mem d.span (by revert key; decide)
  simp only [List.forall_mem_cons] at hSpan
  -- every text is found by its key, apart from those that are left out
  have hTexts : (Json.obj d.members).textAt? "code" = some d.code.name ∧
      (Json.obj d.members).textAt? "message" = some d.message ∧
      (Json.obj d.members).textAt? "severity" = some d.severity.label ∧
      (Json.obj d.members).textAt? "expected" = d.expected ∧
      (Json.obj d.members).textAt? "found" = d.found ∧
      (Json.obj d.members).textAt? "hint" = nonempty? d.hint ∧
      (Json.obj d.members).textAt? "help_url" = nonempty? d.helpUrl := by
    simp [members, Json.textAt?, Json.member?, Keyed.find?_append, Keyed.find?_cons,
      Json.find?_optional, hSpan, Json.bind_asText?_map, Json.asText?]
  obtain ⟨hCode, hMessage, hSeverity, hExpected, hFound, hHint, hLink⟩ := hTexts
  rw [ofJson?, hCode, hMessage, hSeverity, hExpected, hFound, hHint, hLink,
    spanOfJson?_members]
  simp [Code.ofName?_name, Severity.ofLabel?_label, withoutEmpty]

/-- A style that cuts no texts writes the members of the diagnostic. -/
theorem Style.json_of_whole {style : Style} (hWhole : style.sanitize = false) (d : Diagnostic) :
    style.json d = .obj d.members := by
  have hClip : style.clip = id := by
    funext s
    simp [clip, hWhole]
  rw [json, hClip, Option.map_id, members]
  cases d.span <;> rfl

/-- Empty hints and links are not written. -/
theorem members_withoutEmpty (d : Diagnostic) : d.withoutEmpty.members = d.members := by
  have hTwice : ∀ text : Option String, nonempty? (nonempty? text) = nonempty? text := fun text =>
    nonempty?_eq_iff.mpr (getD_nonempty? text)
  simp only [members, withoutEmpty, hTwice]

/-! ## Diagnostics with the same text -/

/-- Whether two diagnostics are the same, where an empty hint or link counts as none. -/
structure Agrees (d d' : Diagnostic) : Prop where
  code : d.code = d'.code
  message : d.message = d'.message
  severity : d.severity = d'.severity
  span : d.span = d'.span
  expected : d.expected = d'.expected
  found : d.found = d'.found
  hint : d.hint.getD "" = d'.hint.getD ""
  helpUrl : d.helpUrl.getD "" = d'.helpUrl.getD ""

/-- Two diagnostics agree if they are the same without their empty texts. -/
theorem agrees_iff {d d' : Diagnostic} : d.Agrees d' ↔ d.withoutEmpty = d'.withoutEmpty := by
  constructor
  · intro h
    simp only [withoutEmpty, h.code, h.message, h.severity, h.span, h.expected, h.found,
      nonempty?_eq_iff.mpr h.hint, nonempty?_eq_iff.mpr h.helpUrl]
  · intro h
    simp only [withoutEmpty, Diagnostic.mk.injEq, nonempty?_eq_iff] at h
    obtain ⟨hCode, hMessage, hSpan, hHint, hLink, hExpected, hFound, hSeverity⟩ := h
    exact ⟨hCode, hMessage, hSeverity, hSpan, hExpected, hFound, hHint, hLink⟩

namespace Style

/-- The JSON layout writes the members of a diagnostic and nothing else. -/
theorem render_json {style : Style} (hLayout : style.layout = .json)
    (hWhole : style.sanitize = false) (d : Diagnostic) (source : Option String) :
    style.render d source = (Json.obj d.members).text := by
  rw [render, hLayout, ← json_of_whole hWhole]

/-- **The JSON text of a diagnostic is faithful.** When no texts are cut, it has no control
characters, and so is one line; and the texts of two diagnostics are the same exactly when the
diagnostics agree in everything, an empty hint or link counting as none. -/
theorem render_json_faithful {style : Style} (hLayout : style.layout = .json)
    (hWhole : style.sanitize = false) (d d' : Diagnostic) (source source' : Option String) :
    (∀ c ∈ (style.render d source).toList, 0x20 ≤ c.toNat) ∧
      lines (style.render d source).toList = [(style.render d source).toList] ∧
      (style.render d source = style.render d' source' ↔ d.Agrees d') := by
  rw [render_json hLayout hWhole, render_json hLayout hWhole, agrees_iff]
  refine ⟨Json.printable_text _, Json.lines_text _, ?_⟩
  constructor
  · -- the text determines the object, and from that the diagnostic is read back
    intro hText
    have hRead := congrArg ofJson? (Json.text_injective hText)
    rw [ofJson?_members, ofJson?_members] at hRead
    exact Option.some.inj hRead
  · -- what is not written makes no difference
    intro hSame
    rw [← members_withoutEmpty, hSame, members_withoutEmpty]

/-- A diagnostic whose message looks like the end of a member and the beginning of another one. -/
def misleading (hint found : Option String) : Diagnostic where
  code := .unexpectedToken
  message := "\", \"found\": \"\n"
  hint := hint
  found := found

/-- An empty hint is not told from none, but what is found is told from what looks like it. -/
theorem render_json_faithful_of_misleading :
    (Style.mk .json false false 100).layout = .json ∧
      (Style.mk .json false false 100).sanitize = false ∧
      (∀ c ∈ ((Style.mk .json false false 100).render (misleading none none) none).toList,
        0x20 ≤ c.toNat) ∧
      (Style.mk .json false false 100).render (misleading none none) none =
        (Style.mk .json false false 100).render (misleading (some "") none) none ∧
      (Style.mk .json false false 100).render (misleading none none) none ≠
        (Style.mk .json false false 100).render (misleading none (some "\n")) none := by
  have hLayout : (Style.mk .json false false 100).layout = .json := rfl
  obtain ⟨hPrintable, -, hEmpty⟩ := render_json_faithful hLayout rfl
    (misleading none none) (misleading (some "") none) none none
  obtain ⟨-, -, hFound⟩ := render_json_faithful hLayout rfl
    (misleading none none) (misleading none (some "\n")) none none
  refine ⟨hLayout, rfl, hPrintable, hEmpty.mpr ⟨rfl, rfl, rfl, rfl, rfl, rfl, rfl, rfl⟩, ?_⟩
  intro hText
  exact absurd (hFound.mp hText).found (by decide)

end Style

end Diagnostic

end MessagePattern
