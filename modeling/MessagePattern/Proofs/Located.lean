import MessagePattern.Proofs.Concatenation
import MessagePattern.Proofs.Continuation
import MessagePattern.Proofs.JsonText
import MessagePattern.Proofs.Outcomes
import MessagePattern.Proofs.Positions

/-!
# Errors locate themselves

An error tells an offset, a line and a column, and what is found there. The line and the column
are those of the offset in the pattern, for any cursor. What is found is one character on the
line of the message, since blanks have been skipped wherever the grammar calls for something: the
character is no blank, so it is no line feed either. That blanks have been skipped is told here
for each place at which a reader can stop.

* `Violation.Placed`, `Reader.PlacesAt` — a violation in front of a text, and a reader that stops
  only in front of suitable texts;
* `Grammar.placesAt_message` — message readers do, at every level of nesting;
* `SyntaxError.LocatedIn` — what an error says of a pattern;
* `Parser.locatedIn_of_parse` — the error of a rejected pattern says it of the pattern.
-/

namespace MessagePattern

open Declared

/-! ## Violations in front of texts -/

/-- Whether a violation may be raised in front of a text. No blank stands where something is
called for or a brace is stray, and arguments whose sub-messages are called for, or lack the one
for everything else, are of a type that takes sub-messages. -/
def Violation.Placed (rest : List Char) : Violation → Prop
  | .expected what => Outside isBlank rest ∧ ∀ type, what = .subMessages type → type ∈ casedTypes
  | .unexpected => Outside isBlank rest
  | .missingOther construct => construct ∈ casedTypes
  | .tooDeep _ => True
  | .offsetOutOfRange _ => True

namespace Reader

variable {α β : Type}

/-- Where the reader stops on the text, the violation is well placed. -/
def PlacesAt (p : Reader α) (s : List Char) : Prop :=
  ∀ cause rest, p.Stops s (.violation cause) rest → cause.Placed rest

/-- A reader that does not stop at a violation places none wrongly. -/
theorem placesAt_of_not_stops {p : Reader α} {s : List Char}
    (h : ∀ cause rest, ¬p.Stops s (.violation cause) rest) : p.PlacesAt s :=
  fun cause rest hStops => absurd hStops (h cause rest)

/-- Where the violations of a reader stand is told by its run. -/
theorem PlacesAt.of_run_eq {p q : Reader α} {s : List Char} (h : q.PlacesAt s)
    (hRun : p.run s = q.run s) : p.PlacesAt s := by
  intro cause rest hStops
  rw [Stops, hRun] at hStops
  exact h cause rest hStops

/-- A sequence places its violations if its parts do, each where it starts. -/
theorem placesAt_bind {p : Reader α} {next : α → Reader β} {s : List Char}
    (hFirst : p.PlacesAt s) (hNext : ∀ a t, p.Accepts s a t → (next a).PlacesAt t) :
    (p >>= next).PlacesAt s := by
  intro cause rest hStops
  rcases stops_bind.mp hStops with hHere | ⟨a, t, hAccepts, hLater⟩
  · exact hFirst cause rest hHere
  · exact hNext a t hAccepts cause rest hLater

theorem placesAt_pure (a : α) (s : List Char) : (pure a : Reader α).PlacesAt s :=
  placesAt_of_not_stops fun _ _ => not_stops_pure

/-- A node that is refused breaks no rule of the grammar. -/
theorem placesAt_checked (node : Except NodeError α) (s : List Char) :
    (checked node).PlacesAt s :=
  placesAt_of_not_stops fun _ _ hStops => by
    obtain ⟨⟨e, -, hFault⟩, -⟩ := stops_checked.mp hStops
    exact nomatch hFault

theorem placesAt_take (kind : Token.Kind) (s : List Char) : (take kind).PlacesAt s :=
  placesAt_of_not_stops fun _ _ hStops => nomatch (stops_take.mp hStops).1

theorem placesAt_text (poundIsNumber : Bool) (s : List Char) :
    (text poundIsNumber).PlacesAt s :=
  placesAt_of_not_stops fun _ _ => not_stops_text

theorem placesAt_commitStyle (scan : StyleScan) (s : List Char) :
    (commitStyle scan).PlacesAt s :=
  placesAt_of_not_stops fun _ _ => not_stops_commitStyle

/-- Looking at the next character leaves the place as it is. -/
theorem placesAt_peek_bind {next : Option Char → Reader β} {s : List Char}
    (h : (next s.head?).PlacesAt s) : (peek >>= next).PlacesAt s :=
  fun cause rest hStops => h cause rest (stops_peek_bind.mp hStops)

/-- A condition that is not met is a violation at the place where it is asked for. -/
theorem placesAt_require {condition : Bool} {cause : Violation} {s : List Char}
    (h : condition = false → cause.Placed s) : (require condition cause).PlacesAt s := by
  intro found rest hStops
  obtain ⟨hFails, hFault, rfl⟩ := stops_require.mp hStops
  obtain rfl : cause = found := Fault.violation.inj hFault
  exact h hFails

/-- A condition that has been checked may be used for what is read next. -/
theorem placesAt_require_bind {condition : Bool} {cause : Violation} {next : Unit → Reader β}
    {s : List Char} (h : condition = false → cause.Placed s)
    (hNext : condition = true → (next ()).PlacesAt s) :
    (require condition cause >>= next).PlacesAt s := by
  refine placesAt_bind (placesAt_require h) fun _ t hRequire => ?_
  obtain ⟨hHolds, rfl⟩ := accepts_require.mp hRequire
  exact hNext hHolds

/-- After blanks have been skipped, no blank stands in front. -/
theorem placesAt_space_bind {next : Unit → Reader β} {s : List Char}
    (h : ∀ t, Outside isBlank t → (next ()).PlacesAt t) : (space >>= next).PlacesAt s := by
  refine placesAt_bind (placesAt_of_not_stops fun _ _ => not_stops_space) fun _ t hSpace => ?_
  obtain ⟨blanks, hRun⟩ := accepts_space.mp hSpace
  exact h t hRun.outside

/-- Whatever is called for, apart from sub-messages, may be called for where no blank stands. -/
theorem placed_expected {what : Expectation} {s : List Char} (hOutside : Outside isBlank s)
    (hPlain : what ∈ Expectation.plain) : (Violation.expected what).Placed s := by
  refine ⟨hOutside, ?_⟩
  rintro type rfl
  simp [Expectation.plain] at hPlain

/-- A missing name is found missing where no blank stands. -/
theorem placesAt_name {kind : Token.Kind} {what : Expectation} {s : List Char}
    (hOutside : Outside isBlank s) (hPlain : what ∈ Expectation.plain) :
    (name kind what).PlacesAt s := by
  intro cause rest hStops
  obtain ⟨-, hFault, rfl⟩ := stops_name.mp hStops
  obtain rfl : .expected what = cause := Fault.violation.inj hFault
  exact placed_expected hOutside hPlain

/-- A missing character is found missing where no blank stands. -/
theorem placesAt_demand {c : Char} {kind : Token.Kind} {what : Expectation} {s : List Char}
    (hOutside : Outside isBlank s) (hPlain : what ∈ Expectation.plain) :
    (demand c kind what).PlacesAt s := by
  intro cause rest hStops
  obtain ⟨-, hFault, rfl⟩ := stops_demand.mp hStops
  obtain rfl : .expected what = cause := Fault.violation.inj hFault
  exact placed_expected hOutside hPlain

/-- Members that are read where some condition holds, and leave a text of which it holds, may
follow one another. -/
theorem placesAt_untilClose {P : List Char → Prop} (item : Item α)
    (hItem : ∀ s, P s → item.toReader.PlacesAt s)
    (hKeeps : ∀ s a t, item.toReader.Accepts s a t → P t) {s : List Char} (hStart : P s) :
    (untilClose item).PlacesAt s := by
  -- by induction on the members that are still to come
  induction s using untilClose_induction item with
  | step s ih =>
    intro cause rest hStops
    rcases stops_untilClose.mp hStops with ⟨hGoesOn, hHere | ⟨a, t, hAccepts, hLater⟩⟩
    · exact hItem s hStart cause rest hHere
    · obtain rfl := hAccepts.2
      exact ih a hGoesOn hAccepts.1 (hKeeps s a _ hAccepts) cause rest hLater

/-- Where a list ends, no blank stands. -/
theorem outside_of_closesHere {s : List Char} (h : closesHere s = true) : Outside isBlank s := by
  cases s with
  | nil => simp [Outside]
  | cons c t =>
    obtain rfl : c = '\x7d' := by simpa [closesHere] using h
    exact outside_cons (by decide) t

end Reader

/-! ## The grammar -/

namespace Grammar

open Reader

/-- An offset clause lacks its number, or has too long a one, after the blanks behind its
colon. -/
theorem placesAt_offset (s : List Char) : offset.PlacesAt s := by
  refine placesAt_bind ?clause fun clause t _ => ?after
  case clause =>
    -- the keyword brings a number, which may be missing or too long; without it nothing is read
    by_cases hKeyword : "offset:".toList <+: s
    · obtain ⟨t, rfl⟩ := hKeyword
      intro cause rest hStops
      rw [Stops, run_offsetClause?_of_keyword] at hStops
      -- the number is missing behind the blanks, or it has too many digits
      obtain ⟨⟨blanks, hRun⟩, ⟨-, hFault⟩ | ⟨-, hFault⟩⟩ := stops_offsetNumber.mp hStops
      · obtain rfl := Fault.violation.inj hFault
        exact placed_expected hRun.outside (by decide)
      · obtain rfl := Fault.violation.inj hFault
        exact trivial
    · refine placesAt_of_not_stops fun cause rest hStops => ?_
      rw [Stops, run_offsetClause?_of_not_keyword hKeyword] at hStops
      exact absurd hStops.1 (by simp)
  case after =>
    -- what follows the number only skips blanks
    cases clause with
    | none => exact placesAt_pure 0 t
    | some n => exact placesAt_space_bind fun u _ => placesAt_pure n u

/-- After an offset clause the blanks are skipped; where there is none, nothing is read. -/
theorem outside_of_offset {s t : List Char} {n : Nat} (hOutside : Outside isBlank s)
    (h : offset.Accepts s n t) : Outside isBlank t := by
  cases accepts_offset.mp h with
  | clause _ _ _ _ hAfter =>
    obtain ⟨blanks, hRun⟩ := hAfter
    exact hRun.outside
  | none => exact hOutside

/-- The closing brace is looked for after the blanks. -/
theorem placesAt_close (s : List Char) : close.PlacesAt s :=
  placesAt_space_bind fun _ hOutside => placesAt_demand hOutside (by decide)

/-- After blanks, a placeholder is closed by the brace that is there, or goes on. -/
theorem placesAt_closeOr {α : Type} {p q : Reader α} {s : List Char}
    (hClose : ∀ t, p.PlacesAt ('\x7d' :: t)) (hGoOn : ∀ t, Outside isBlank t → q.PlacesAt t) :
    (space >>= fun _ => peek >>= fun next =>
      if next == some '\x7d' then p else q).PlacesAt s := by
  refine placesAt_space_bind fun t hOutside => placesAt_peek_bind ?_
  split
  · next hBrace =>
    -- the brace has been seen, so the text is known to begin with it
    obtain ⟨u, rfl⟩ := List.head?_eq_some_iff.mp (beq_iff_eq.mp hBrace)
    exact hClose u
  · exact hGoOn t hOutside

section
variable {body : Body} (hBody : ∀ poundIsNumber s, (body poundIsNumber).PlacesAt s)
include hBody

/-- A case places its violations if its body does. -/
theorem placesAt_caseEntry (poundIsNumber : Bool) {s : List Char} (hOutside : Outside isBlank s) :
    (caseEntry (body poundIsNumber)).PlacesAt s := by
  refine placesAt_bind (placesAt_name hOutside (by decide)) fun _ _ _ => ?_
  refine placesAt_space_bind fun t hOpen => ?_
  refine placesAt_bind (placesAt_demand hOpen (by decide)) fun _ _ _ => ?_
  refine placesAt_bind (hBody poundIsNumber _) fun _ _ _ => ?_
  exact placesAt_space_bind fun u _ => placesAt_pure _ u

omit hBody in
/-- The blanks after a case are skipped with it. -/
theorem outside_of_caseEntry {reader : Reader Message} {s t : List Char} {entry : String × Message}
    (h : (caseEntry reader).Accepts s entry t) : Outside isBlank t := by
  simp only [caseEntry, accepts_bind, accepts_space, accepts_pure] at h
  obtain ⟨_, _, -, _, _, -, _, _, -, _, _, -, _, _, ⟨blanks, hRun⟩, -, rfl⟩ := h
  exact hRun.outside

/-- The case for `other` is asked for in arguments of types that take cases. -/
theorem placesAt_caseList {construct : String} {requireOther : Bool} (poundIsNumber : Bool)
    (hCased : requireOther = true → construct ∈ casedTypes) {s : List Char}
    (hOutside : Outside isBlank s) :
    (caseList body construct poundIsNumber requireOther).PlacesAt s := by
  -- a case skips the blanks after it, so none stands in front of the next one
  have hEntries := placesAt_untilClose (caseItem (body poundIsNumber))
    (fun t => placesAt_caseEntry hBody poundIsNumber (s := t))
    (fun _ _ _ => outside_of_caseEntry) hOutside
  refine placesAt_bind hEntries fun _ t _ => ?_
  refine placesAt_require_bind (fun hLacks => hCased ?_) fun _ => placesAt_checked _ _
  -- a list that need not have the case is never found to lack it
  cases requireOther with
  | true => rfl
  | false => simp at hLacks

/-- A plural argument that begins at no blank places its violations. -/
theorem placesAt_pluralArgument (id : String) (kind : PluralKind) {s : List Char}
    (hOutside : Outside isBlank s) : (pluralArgument body id kind).PlacesAt s := by
  have hCased : kind.name ∈ casedTypes := by cases kind <;> decide
  refine placesAt_bind (placesAt_offset s) fun n t hOffset => ?_
  refine placesAt_bind ?_ fun _ u _ => placesAt_checked _ u
  exact placesAt_caseList hBody true (fun _ => hCased) (outside_of_offset hOutside hOffset)

theorem placesAt_selectArgument (id : String) {s : List Char} (hOutside : Outside isBlank s) :
    (selectArgument body id).PlacesAt s :=
  placesAt_bind (placesAt_caseList hBody false (fun _ => by decide) hOutside) fun _ t _ =>
    placesAt_checked _ t

/-- A style is scanned before it is read, so one that is missing is missed where it should
begin. -/
theorem placesAt_styleArgument (id type : String) {s : List Char} (hOutside : Outside isBlank s) :
    (styleArgument body id type).PlacesAt s := by
  refine PlacesAt.of_run_eq (q := thirdPart body id type (StyleScan.ofSource s)) ?_
    (run_styleArgument body id type s)
  rw [thirdPart]
  split
  · exact placesAt_bind (placesAt_caseList hBody false (by simp) hOutside) fun _ t _ =>
      placesAt_checked _ t
  · refine placesAt_require_bind (fun _ => placed_expected hOutside (by decide)) fun _ => ?_
    exact placesAt_bind (placesAt_commitStyle _ s) fun _ t _ => placesAt_checked _ t

/-- An argument that begins at no blank places its violations, whatever its type is. -/
theorem placesAt_argument (id type : String) {s : List Char} (hOutside : Outside isBlank s) :
    (argument body id type).PlacesAt s := by
  unfold argument
  split
  · exact placesAt_pluralArgument hBody id _ hOutside
  · split
    · exact placesAt_selectArgument hBody id hOutside
    · exact placesAt_styleArgument hBody id type hOutside

/-- All that may follow a type places its violations, as blanks are skipped first. -/
theorem placesAt_afterType (id type : String) (s : List Char) :
    (afterType body id type).PlacesAt s := by
  refine placesAt_closeOr ?_ ?_
  · intro t
    refine placesAt_require_bind (fun hTakes => ?_) fun _ => ?_
    · -- a type that is closed too early takes cases
      refine ⟨outside_cons (by decide) t, ?_⟩
      rintro _ ⟨⟩
      exact takesCases_iff.mp (by simpa using hTakes)
    · exact placesAt_bind (placesAt_take _ _) fun _ u _ => placesAt_checked _ u
  · intro t hOutside
    refine placesAt_bind (placesAt_demand hOutside (by decide)) fun _ _ _ => ?_
    refine placesAt_space_bind fun u hArgument => ?_
    refine placesAt_bind (placesAt_argument hBody id type hArgument) fun e _ _ => ?_
    exact placesAt_bind (placesAt_close _) fun _ v _ => placesAt_pure e v

/-- All that may follow an identifier places its violations, as blanks are skipped first. -/
theorem placesAt_afterId (id : String) (s : List Char) : (afterId body id).PlacesAt s := by
  refine placesAt_closeOr ?_ ?_
  · intro t
    exact placesAt_bind (placesAt_take _ _) fun _ u _ => placesAt_checked _ u
  · intro t hOutside
    refine placesAt_bind (placesAt_demand hOutside (by decide)) fun _ _ _ => ?_
    refine placesAt_space_bind fun u hType => ?_
    exact placesAt_bind (placesAt_name hType (by decide)) fun type v _ =>
      placesAt_afterType hBody id type v

/-- A placeholder places its violations, as blanks are skipped first. -/
theorem placesAt_placeholder (s : List Char) : (placeholder body).PlacesAt s := by
  refine placesAt_space_bind fun t hOutside => ?_
  exact placesAt_bind (placesAt_name hOutside (by decide)) fun id u _ =>
    placesAt_afterId hBody id u

/-- An element places its violations, whichever of the four kinds it is. -/
theorem placesAt_element (poundIsNumber : Bool) (s : List Char) :
    (element body poundIsNumber).PlacesAt s := by
  have hText : (text poundIsNumber >>= fun value =>
      (pure (.text value) : Reader Element)).PlacesAt s :=
    placesAt_bind (placesAt_text poundIsNumber s) fun value t _ =>
      placesAt_pure (Element.text value) t
  refine placesAt_peek_bind ?_
  split
  · exact placesAt_bind (placesAt_take _ s) fun _ t _ => placesAt_placeholder hBody t
  · split
    · exact placesAt_bind (placesAt_take _ s) fun _ t _ => placesAt_pure _ t
    · exact hText
  · exact hText

/-- A brace that nothing opened is found where the elements end. -/
theorem placesAt_elements (cx : Context) (s : List Char) : (elements body cx).PlacesAt s := by
  have hElements := placesAt_untilClose (P := fun _ => True)
    (elementItem body cx.poundIsNumber) (fun t _ => placesAt_element hBody cx.poundIsNumber t)
    (fun _ _ _ _ => trivial) (s := s) trivial
  refine placesAt_bind hElements fun m t hList => placesAt_peek_bind ?_
  refine placesAt_require_bind (fun _ => ?_) fun _ => placesAt_pure m t
  exact outside_of_closesHere (closesHere_of_accepts hList)

end

/-- A message in braces that is not closed stops where its elements end. -/
theorem placesAt_closed {cx : Context} (h : ∀ s, (message cx).PlacesAt s) (s : List Char) :
    (closed (message cx)).PlacesAt s := by
  refine placesAt_bind (h s) fun m t hMessage => ?_
  rw [message_eq] at hMessage
  have hEnds := closesHere_of_accepts (accepts_elements.mp hMessage).1
  exact placesAt_bind (placesAt_demand (outside_of_closesHere hEnds) (by decide)) fun _ u _ =>
    placesAt_pure m u

/-- **Wherever a message reader stops, the violation is well placed.** -/
theorem placesAt_message (cx : Context) (s : List Char) : (message cx).PlacesAt s := by
  -- by induction on the levels that are left
  induction cx using message_induction generalizing s with
  | step cx ih =>
    rw [message_eq]
    refine placesAt_elements (fun poundIsNumber t => ?_) cx s
    unfold subMessage
    split
    · -- a level too many is told apart before anything is read
      intro cause rest hStops
      obtain ⟨hFault, rfl⟩ := stops_reject.mp hStops
      obtain rfl := Fault.violation.inj hFault
      exact trivial
    · next hRoom => exact placesAt_closed (ih hRoom poundIsNumber) t

end Grammar

/-! ## Texts on one line -/

/-- Whether a text has neither a line feed nor a carriage return. -/
def IsOneLine (s : String) : Prop := '\n' ∉ s.toList ∧ '\r' ∉ s.toList

instance (s : String) : Decidable (IsOneLine s) := inferInstanceAs (Decidable (_ ∧ _))

/-- Texts of one line are one line in a row. -/
theorem isOneLine_append {s t : String} (hs : IsOneLine s) (ht : IsOneLine t) :
    IsOneLine (s ++ t) := by
  simp only [IsOneLine, String.toList_append, List.mem_append, not_or]
  exact ⟨⟨hs.1, ht.1⟩, hs.2, ht.2⟩

/-- The types that take sub-messages are named on one line. -/
theorem isOneLine_of_mem_casedTypes : ∀ type ∈ casedTypes, IsOneLine type := by decide

/-- Numerals have digits and a sign, and no line breaks. -/
theorem isOneLine_toString (n : Int) : IsOneLine (toString n) := by
  have hDigits : ∀ (m : Nat) (c : Char), c.isDigit = false → c ∉ Nat.toDigits 10 m :=
    fun m c hChar hMem =>
      absurd (Nat.isDigit_of_mem_toDigits (by decide) (by decide) hMem) (by simp [hChar])
  cases n with
  | ofNat m =>
    rw [IsOneLine, Json.toList_toString_ofNat]
    exact ⟨hDigits m _ (by decide), hDigits m _ (by decide)⟩
  | negSucc m =>
    rw [IsOneLine, Json.toList_toString_negSucc]
    exact ⟨List.not_mem_cons_of_ne_of_not_mem (by decide) (hDigits _ _ (by decide)),
      List.not_mem_cons_of_ne_of_not_mem (by decide) (hDigits _ _ (by decide))⟩

/-- Where no blank stands, what is found is named on one line. -/
theorem Cursor.isOneLine_found {c : Cursor} (hOutside : Outside isBlank c.rest) :
    IsOneLine c.found := by
  rw [found, current?]
  cases hHead : c.rest.head? with
  | none => decide
  | some d =>
    have hBlank : isBlank d = false := hOutside d hHead
    simp only [IsOneLine, String.toList_singleton, List.mem_singleton]
    constructor
    all_goals
      rintro rfl
      exact absurd hBlank (by decide)

/-- The wording of a well placed violation is on one line. -/
theorem Violation.isOneLine_message {cause : Violation} {c : Cursor} (h : cause.Placed c.rest) :
    IsOneLine (cause.diagnostic c).message := by
  have hNumeral : ∀ {front back : String}, IsOneLine front → IsOneLine back → ∀ n : Int,
      IsOneLine (front ++ toString n ++ back) := fun hFront hBack n =>
    isOneLine_append (isOneLine_append hFront (isOneLine_toString n)) hBack
  -- a message is made of fixed texts, a type that takes cases, numerals, and what was found
  cases cause with
  | expected what =>
    -- the expectation is a fixed text, or it names a type that takes cases
    have hText : IsOneLine what.text := by
      cases what with
      | subMessages type =>
        exact isOneLine_append (isOneLine_of_mem_casedTypes type (h.2 type rfl)) (by decide)
      | _ => decide
    have hFront : IsOneLine ("Expected " ++ what.text ++ " but found ") :=
      isOneLine_append (isOneLine_append (by decide) hText) (by decide)
    exact isOneLine_append hFront (Cursor.isOneLine_found h.1)
  | unexpected =>
    exact isOneLine_append (isOneLine_append (by decide) (Cursor.isOneLine_found h)) (by decide)
  | missingOther construct =>
    exact isOneLine_append (by decide) (isOneLine_of_mem_casedTypes construct h)
  | tooDeep limit => exact hNumeral (by decide) (by decide) limit
  | offsetOutOfRange maxDigits => exact hNumeral (by decide) (by decide) maxDigits

/-! ## Located errors -/

/-- The span of a cursor covers one character, and none at the end. -/
theorem Cursor.stop_span (c : Cursor) (hPos : c.pos ≤ c.source.toList.length) :
    c.span.stop = c.pos + if c.pos = c.source.toList.length then 0 else 1 := by
  show (if c.isAtEnd then c.pos else c.pos + 1) = _
  rw [isAtEnd, ← String.length_toList]
  by_cases hEnd : c.pos = c.source.toList.length
  · simp [hEnd]
  · have hInside : ¬c.source.toList.length ≤ c.pos := by omega
    simp only [hEnd, hInside, decide_false, Bool.false_eq_true, if_false]

namespace SyntaxError

/-- The codes of errors that tell what is found. -/
def tokenCodes : List Diagnostic.Code := [.expectedToken, .unexpectedToken]

/-- What an error says of the pattern that it is raised for. -/
structure LocatedIn (e : SyntaxError) (s : List Char) : Prop where
  offset_le : e.offset ≤ s.length
  /-- The span is that of the character at the offset, and is empty at the end. -/
  span : ∃ span, e.diagnostic.span = some span ∧ span.start = e.offset ∧
    span.stop = e.offset + if e.offset = s.length then 0 else 1
  /-- The line is one more than the line feeds before the offset. -/
  line_eq : e.line = (s.take e.offset).count '\n' + 1
  /-- The column is one more than the distance from the last line feed before the offset. -/
  column_eq : ∃ above line below, LineAt s e.offset above line below ∧
    e.column = e.offset - above.length + 1
  /-- The end of the pattern has a name of its own. -/
  found_end : e.diagnostic.code ∈ tokenCodes → e.offset = s.length → e.found = some endOfPattern
  /-- Elsewhere the character at the offset is found, and it is no blank. -/
  found_char : e.diagnostic.code ∈ tokenCodes → ∀ c, s[e.offset]? = some c →
    e.found = some (String.singleton c) ∧ isBlank c = false
  found_none : e.diagnostic.code ∉ tokenCodes → e.found = none
  oneLine : IsOneLine e.message

variable {cause : Violation} {c : Cursor}

theorem line_ofViolation (cause : Violation) (c : Cursor) :
    (ofViolation cause c).line = c.line := by
  cases cause <;> rfl

theorem column_ofViolation (cause : Violation) (c : Cursor) :
    (ofViolation cause c).column = c.column := by
  cases cause <;> rfl

/-- The errors about tokens are those for what is called for, and for a stray brace. -/
theorem code_mem_tokenCodes_iff : (ofViolation cause c).diagnostic.code ∈ tokenCodes ↔
    (∃ what, cause = .expected what) ∨ cause = .unexpected := by
  cases cause <;> simp [ofViolation, Violation.diagnostic, Diagnostic.expectedToken,
    Diagnostic.unexpectedToken, Diagnostic.missingOther, Diagnostic.nestingDepthExceeded,
    Diagnostic.offsetOutOfRange, tokenCodes]

/-- An error about a token tells what the cursor finds, and is raised where no blank stands. -/
theorem found_ofViolation (hCode : (ofViolation cause c).diagnostic.code ∈ tokenCodes)
    (h : cause.Placed c.rest) :
    (ofViolation cause c).found = some c.found ∧ Outside isBlank c.rest := by
  rcases code_mem_tokenCodes_iff.mp hCode with ⟨what, rfl⟩ | rfl
  · exact ⟨rfl, h.1⟩
  · exact ⟨rfl, h⟩

/-- A well placed violation is located in the text of its cursor. -/
theorem locatedIn_ofViolation (hPos : c.pos ≤ c.source.toList.length)
    (h : cause.Placed c.rest) : (ofViolation cause c).LocatedIn c.source.toList := by
  have hOffset : (ofViolation cause c).offset = c.pos := offset_ofViolation cause c
  have hHead : c.rest.head? = c.source.toList[c.pos]? := List.head?_drop
  obtain ⟨above, line, below, hLine⟩ := exists_lineAt hPos
  constructor
  case offset_le => rwa [hOffset]
  case span =>
    rw [hOffset]
    exact ⟨c.span, cause.span_diagnostic c, rfl, c.stop_span hPos⟩
  case line_eq => rw [hOffset, line_ofViolation, hLine.line_eq, hLine.count_take]
  case column_eq =>
    rw [hOffset, column_ofViolation]
    exact ⟨above, line, below, hLine, hLine.column_eq⟩
  case found_end =>
    -- at the end of the text nothing is found, and the error says so
    intro hCode hEnd
    rw [hOffset] at hEnd
    rw [(found_ofViolation hCode h).1, Cursor.found, Cursor.current?, hHead, hEnd,
      List.getElem?_eq_none (Nat.le_refl _)]
  case found_char =>
    intro hCode d hChar
    rw [hOffset, ← hHead] at hChar
    obtain ⟨hFound, hOutside⟩ := found_ofViolation hCode h
    rw [hFound, Cursor.found, Cursor.current?, hChar]
    exact ⟨rfl, hOutside d hChar⟩
  case found_none =>
    -- the other codes name nothing that was found
    intro hCode
    rw [code_mem_tokenCodes_iff, not_or] at hCode
    cases cause with
    | expected what => exact absurd ⟨what, rfl⟩ hCode.1
    | unexpected => exact absurd rfl hCode.2
    | _ => rfl
  case oneLine => exact cause.isOneLine_message h

end SyntaxError

/-! ## Whole parses -/

namespace Parser

/-- A pattern is rejected for a violation at the cursor where the reading of its text ends. -/
theorem exists_violation_of_parse {p : Parser} {pattern : PatternValue} {e : SyntaxError}
    (h : p.parse pattern = .error (.rejected e)) :
    ∃ (cause : Violation) (c : Cursor), c.source = pattern.toText ∧
      c.pos ≤ c.source.toList.length ∧ cause.Placed c.rest ∧ e = .ofViolation cause c := by
  by_cases hLong : 0 < p.maxLength ∧ p.maxLength < pattern.toText.length
  · -- a pattern that is too long is not read
    rw [parse, parseInto_of_long hLong] at h
    simp at h
  · -- a rejection is a violation, raised where the reader stopped
    obtain ⟨cause, hResult, rfl⟩ := (parse_eq_rejected_iff hLong).mp h
    refine ⟨cause, p.stoppedAt pattern.toText, rfl, ?_, ?_, rfl⟩
    · -- the place is where the log ends, and the rest of the text is what was left
      have hTiles := (p.reply_tiles pattern.toText).joined_append_rest
      show (p.stoppedAt pattern.toText).pos ≤ pattern.toText.toList.length
      rw [← hTiles, List.length_append]
      exact Nat.le_add_right ..
    · rw [rest_stoppedAt]
      exact Grammar.placesAt_message p.rootContext _ cause _ ⟨hResult, rfl⟩

/-- **Errors locate themselves.** When a pattern is rejected, the offset of the error is one in
the text of the pattern; its span, its line and its column are those of the character there; and
an error about a token names that character, which is no blank, or the end of the pattern, so
that its message is on one line. Other errors name nothing that is found. -/
theorem locatedIn_of_parse (p : Parser) (pattern : PatternValue) (e : SyntaxError)
    (h : p.parse pattern = .error (.rejected e)) : e.LocatedIn pattern.toText.toList := by
  obtain ⟨cause, c, hSource, hPos, hPlaced, rfl⟩ := exists_violation_of_parse h
  rw [← hSource]
  exact SyntaxError.locatedIn_ofViolation hPos hPlaced

/-- A brace that nothing opened, on the second line. -/
theorem parse_two_lines : Parser.parse {} (.text "a\nbc\x7d") =
    .error (.rejected (.ofViolation .unexpected ⟨"a\nbc\x7d", 4⟩)) := by
  decide +kernel

theorem locatedIn_of_parse_of_stray_brace :
    Parser.parse {} (.text "a\nbc\x7d") =
        .error (.rejected (.ofViolation .unexpected ⟨"a\nbc\x7d", 4⟩)) ∧
      (SyntaxError.ofViolation .unexpected ⟨"a\nbc\x7d", 4⟩).LocatedIn "a\nbc\x7d".toList :=
  ⟨parse_two_lines, locatedIn_of_parse {} (.text "a\nbc\x7d") _ parse_two_lines⟩

end Parser

end MessagePattern
