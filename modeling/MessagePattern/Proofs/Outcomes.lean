import MessagePattern.Proofs.Locality
import MessagePattern.Proofs.Recognition

/-!
# How a parse can end

A reader has more faults than a pattern can show: nodes can be refused, and a
character can be asked for where none is left. Each of them is ruled out by a check
made elsewhere. A name is not empty when the node that bears it is built, a list of
cases has the case for `other`, a brace has been looked at before it is taken, and a
numeral is no longer than what can be read. So a parse gives a message, or rejects
the pattern for breaking the grammar, or refuses it unread for its length.

* `Reply.Orderly` — a reply that stops only at a violation, and logs only numerals
  that can be read;
* `Reader.orderly_bind_at`, `Reader.orderly_untilClose` — one reader after another,
  and lists;
* `Grammar.orderly_message` — every message reader has only such replies;
* `Parser.parseInto_outcome` — the ways in which a whole parse ends.
-/

namespace MessagePattern

/-- A reply in which all partial operations were within their bounds: reading stopped,
if at all, because the text breaks the grammar, and every numeral that was logged has
a value. -/
structure Reply.Orderly {α : Type} (r : Reply α) : Prop where
  violation : ∀ fault, r.result = .error fault → ∃ cause, fault = .violation cause
  numeral : ∀ token ∈ r.tokens, token.kind = .number →
    ∃ n, Numeral.read? token.text.toList = some n

namespace Reader

variable {α β : Type}

/-- Every reply of the reader is orderly. -/
def Orderly (p : Reader α) : Prop := ∀ s, (p.run s).Orderly

/-! ## Readers built from readers -/

/-- One reader after another is orderly at a place if each is where it starts. -/
theorem orderly_bind_at {p : Reader α} {next : α → Reader β} {s : List Char}
    (hFirst : (p.run s).Orderly)
    (hNext : ∀ a t, p.Accepts s a t → ((next a).run t).Orderly) :
    ((p >>= next).run s).Orderly := by
  cases h : (p.run s).result with
  | ok a =>
    -- both logs hold what they may, and the second reader decides the result
    have hSecond := hNext a _ ⟨h, rfl⟩
    rw [run_bind_of_ok h]
    refine ⟨hSecond.violation, ?_⟩
    intro token hToken hKind
    rcases List.mem_append.mp hToken with hLeft | hRight
    · exact hFirst.numeral token hLeft hKind
    · exact hSecond.numeral token hRight hKind
  | error fault =>
    -- the second reader does not run
    rw [run_bind_of_error h]
    refine ⟨?_, hFirst.numeral⟩
    intro found hFound
    obtain rfl : fault = found := Except.error.inj hFound
    exact hFirst.violation fault h

theorem Orderly.bind {p : Reader α} {next : α → Reader β} (hFirst : p.Orderly)
    (hNext : ∀ a, (next a).Orderly) : (p >>= next).Orderly :=
  fun s => orderly_bind_at (hFirst s) fun a t _ => hNext a t

/-- A reply without a log is orderly as soon as its fault is a violation. -/
theorem orderly_of_unlogged {r : Reply α} (hTokens : r.tokens = [])
    (h : ∀ fault, r.result = .error fault → ∃ cause, fault = .violation cause) :
    r.Orderly := by
  refine ⟨h, ?_⟩
  intro token hToken
  simp [hTokens] at hToken

theorem orderly_pure (a : α) : (pure a : Reader α).Orderly :=
  fun _ => orderly_of_unlogged rfl (by simp)

/-- A violation is the one failure that a reader may raise by itself. -/
theorem orderly_reject (cause : Violation) : (reject cause : Reader α).Orderly := by
  intro s
  refine orderly_of_unlogged rfl ?_
  intro fault hFault
  exact ⟨cause, (Except.error.inj hFault).symm⟩

/-- A node that is not refused is given. -/
theorem orderly_checked_of_ok {node : Except NodeError α} {a : α} (h : node = .ok a) :
    (checked node).Orderly := by
  subst h
  exact orderly_pure a

theorem orderly_lookAhead : lookAhead.Orderly :=
  fun _ => orderly_of_unlogged rfl (by simp)

theorem orderly_peek : peek.Orderly :=
  orderly_lookAhead.bind fun _ => orderly_pure _

/-- After a look at the next character, the text is still what it was. -/
theorem orderly_peek_bind_at {next : Option Char → Reader β} {s : List Char}
    (hNext : ((next s.head?).run s).Orderly) : ((peek >>= next).run s).Orderly := by
  refine orderly_bind_at (orderly_peek s) fun a t hPeek => ?_
  obtain ⟨hHead, hRest⟩ := hPeek
  obtain rfl : s.head? = a := by simpa using hHead
  obtain rfl : s = t := hRest
  exact hNext

/-- A condition that is not met is a violation. -/
theorem orderly_require (condition : Bool) (cause : Violation) :
    (require condition cause).Orderly := by
  cases condition with
  | true => exact orderly_pure ()
  | false => exact orderly_reject cause

/-! ## Lexemes -/

/-- A token that is not a numeral may hold any text. -/
theorem orderly_lexeme {kind : Token.Kind} (hKind : kind ≠ .number)
    (width : List Char → Nat) : (lexeme kind width).Orderly := by
  intro s
  refine ⟨by simp [lexeme], ?_⟩
  intro token hToken hNumber
  -- the log is empty, or its one token is of the given kind
  simp only [lexeme] at hToken
  split at hToken
  · simp at hToken
  · rw [List.mem_singleton] at hToken
    subst hToken
    exact absurd hNumber hKind

/-- A character may be taken where there is one. -/
theorem orderly_take {kind : Token.Kind} (hKind : kind ≠ .number) (c : Char)
    (t : List Char) : ((take kind).run (c :: t)).Orderly := by
  rw [run_take_cons]
  refine ⟨by simp, ?_⟩
  intro token hToken hNumber
  rw [List.mem_singleton] at hToken
  subst hToken
  exact absurd hNumber hKind

/-- The character that is called for has been looked at before it is taken. -/
theorem orderly_demand {kind : Token.Kind} (hKind : kind ≠ .number) (c : Char)
    (what : Expectation) : (demand c kind what).Orderly := by
  intro s
  refine orderly_peek_bind_at ?_
  refine orderly_bind_at (orderly_require _ _ s) fun _ t hRequire => ?_
  obtain ⟨hNext, rfl⟩ := accepts_require.mp hRequire
  obtain ⟨t, rfl⟩ := List.head?_eq_some_iff.mp (beq_iff_eq.mp hNext)
  exact orderly_take hKind c t

theorem orderly_space : space.Orderly :=
  (orderly_lexeme (by decide) _).bind fun _ => orderly_pure ()

/-- A name is no numeral, and a missing one is a violation. -/
theorem orderly_name {kind : Token.Kind} (hKind : kind ≠ .number) (what : Expectation) :
    (name kind what).Orderly :=
  (orderly_lexeme hKind _).bind fun _ => (orderly_require _ _).bind fun _ =>
    orderly_pure _

theorem orderly_text (poundIsNumber : Bool) : (text poundIsNumber).Orderly :=
  orderly_lookAhead.bind fun _ => (orderly_lexeme (by decide) _).bind fun _ =>
    orderly_pure _

/-- Committing a scanned style is orderly. -/
theorem orderly_commitStyle (scan : StyleScan) : (commitStyle scan).Orderly := by
  intro s
  refine ⟨by simp [commitStyle], ?_⟩
  intro token hToken hNumber
  simp only [commitStyle, List.mem_singleton] at hToken
  simp [hToken] at hNumber

/-- Digits are logged as a numeral only after they have been found to be few enough. -/
theorem orderly_offsetDigits : offsetDigits.Orderly := by
  intro s
  -- there are no digits, or too many of them, or as many as can be read
  by_cases hNone : s.takeWhile Char.isDigit = []
  · rw [run_offsetDigits_of_none hNone]
    exact orderly_of_unlogged rfl (by simp)
  · cases hRead : Numeral.read? (s.takeWhile Char.isDigit) with
    | none =>
      rw [run_offsetDigits_of_long hRead]
      exact orderly_of_unlogged rfl (by simp)
    | some n =>
      -- the one token that is logged holds the digits
      rw [run_offsetDigits_of_short hNone hRead]
      refine ⟨by simp, ?_⟩
      intro token hToken _
      rw [List.mem_singleton] at hToken
      subst hToken
      exact ⟨n, by rw [String.toList_ofList, hRead]⟩

/-- An offset is orderly: the digits it logs as a numeral can be read back. -/
theorem orderly_offsetClause? : offsetClause?.Orderly := by
  intro s
  by_cases hKeyword : "offset:".toList <+: s
  · obtain ⟨t, rfl⟩ := hKeyword
    have hNumber := (orderly_space.bind fun _ => orderly_offsetDigits) t
    rw [run_offsetClause?_of_keyword]
    refine ⟨hNumber.violation, ?_⟩
    intro token hToken hKind
    -- the keyword and its colon are no numerals
    rcases List.mem_cons.mp hToken with rfl | hRest
    · exact absurd hKind (by decide)
    rcases List.mem_cons.mp hRest with rfl | hDigits
    · exact absurd hKind (by decide)
    exact hNumber.numeral token hDigits hKind
  · rw [run_offsetClause?_of_not_keyword hKeyword]
    exact orderly_of_unlogged rfl (by simp)

theorem orderly_untilClose (item : Item α) (hItem : item.toReader.Orderly) :
    (untilClose item).Orderly :=
  untilClose_preserves (P := fun r _ => r.Orderly) orderly_pure orderly_bind_at hItem

end Reader

/-! ## The grammar -/

namespace Grammar

open Reader Declared

/-- Whatever reads the messages in braces, what it accepts may be taken for a
production. -/
theorem bracketed_self (body : Body) :
    Bracketed body fun poundIsNumber s m rest =>
      ∃ t, rest = '\x7d' :: t ∧ (body poundIsNumber).Accepts s m t := by
  intro poundIsNumber s m rest
  refine ⟨fun h => ⟨rest, rfl, h⟩, ?_⟩
  rintro ⟨t, hRest, h⟩
  obtain rfl := (List.cons.inj hRest).2
  exact h

theorem orderly_caseEntry {body : Reader Message} (hBody : body.Orderly) :
    (caseEntry body).Orderly :=
  (orderly_name (by decide) _).bind fun _ => orderly_space.bind fun _ =>
    (orderly_demand (by decide) _ _).bind fun _ => hBody.bind fun _ =>
    orderly_space.bind fun _ => orderly_pure _

theorem orderly_close : close.Orderly :=
  orderly_space.bind fun _ => orderly_demand (by decide) _ _

/-- After blanks, a placeholder is closed by a brace that is there, or goes on. -/
theorem orderly_closeOr {α : Type} {p q : Reader α}
    (hClose : ∀ t, (p.run ('\x7d' :: t)).Orderly) (hGoOn : q.Orderly) :
    (space >>= fun _ => peek >>= fun next =>
      if next == some '\x7d' then p else q).Orderly := by
  refine orderly_space.bind fun _ s => orderly_peek_bind_at ?_
  split
  · next hBrace =>
    -- the brace has been seen, so it can be taken
    obtain ⟨u, rfl⟩ := List.head?_eq_some_iff.mp (beq_iff_eq.mp hBrace)
    exact hClose u
  · exact hGoOn s

section
variable {body : Body} (hBody : ∀ poundIsNumber, (body poundIsNumber).Orderly)
include hBody

/-- Selectors are words, so no case is refused. -/
theorem orderly_caseList (construct : String) (poundIsNumber requireOther : Bool) :
    (caseList body construct poundIsNumber requireOther).Orderly := by
  have hEntries := orderly_untilClose (caseItem (body poundIsNumber))
    (orderly_caseEntry (hBody poundIsNumber))
  intro s
  refine orderly_bind_at (hEntries s) fun entries t hAccepts => ?_
  obtain ⟨hCases, -⟩ := (accepts_entries (bracketed_self body)).mp hAccepts
  refine orderly_bind_at (orderly_require _ _ t) fun _ u _ => ?_
  exact orderly_checked_of_ok (make?_collapse_eq_ok (selector_ne_empty hCases)) u

/-- The case for `other` has been called for, and an offset is never negative. -/
theorem orderly_pluralArgument {id : String} (hId : id ≠ "") (kind : PluralKind) :
    (pluralArgument body id kind).Orderly := by
  have hOffset : offset.Orderly := by
    refine orderly_offsetClause?.bind fun clause => ?_
    cases clause with
    | some n => exact orderly_space.bind fun _ => orderly_pure n
    | none => exact orderly_pure 0
  refine hOffset.bind fun n s => ?_
  refine orderly_bind_at (orderly_caseList hBody _ _ _ s) fun cases t hAccepts => ?_
  -- the list of cases was accepted, so it has the one that the node demands
  obtain ⟨entries, -, -, hOther, rfl⟩ :=
    (accepts_caseList (bracketed_self body)).mp hAccepts
  exact orderly_checked_of_ok (plural?_eq_ok kind n hId (hOther rfl)) t

/-- The node of a select argument is always accepted: the list of cases has passed its own check. -/
theorem orderly_selectArgument {id : String} (hId : id ≠ "") :
    (selectArgument body id).Orderly := by
  intro s
  refine orderly_bind_at (orderly_caseList hBody _ _ _ s) fun cases t hAccepts => ?_
  obtain ⟨entries, -, -, hOther, rfl⟩ :=
    (accepts_caseList (bracketed_self body)).mp hAccepts
  -- a list that has the case for `other` is not empty
  have hNonempty : entries ≠ [] := by
    rintro rfl
    simp at hOther
  exact orderly_checked_of_ok
    (select?_eq_ok hId (by decide) (by decide) hNonempty fun _ => hOther rfl) t

/-- A list of cases of one's own is begun where there is something to read, so it is not
empty; and a style is looked at before its node is built. -/
theorem orderly_styleArgument {id type : String} (hId : id ≠ "") (hType : type ≠ "")
    (hPlain : type ∉ casedTypes) : (styleArgument body id type).Orderly := by
  intro s
  rw [run_styleArgument, thirdPart]
  -- a list of cases, or a style
  split
  · next hList =>
    have hGoesOn :=
      closesHere_eq_false_of_stopsAtOpenBrace (Bool.and_eq_true_iff.mp hList).1
    refine orderly_bind_at (orderly_caseList hBody _ _ _ s) fun cases t hAccepts => ?_
    obtain ⟨entries, hCases, hEnds, -, rfl⟩ :=
      (accepts_caseList (bracketed_self body)).mp hAccepts
    -- an empty list would end where the list goes on
    have hNonempty : entries ≠ [] := by
      rintro rfl
      cases hCases
      exact absurd (hEnds.symm.trans hGoesOn) (by decide)
    have hSelect : type = selectType → "other" ∈ entries.map (·.1) := fun hSame =>
      absurd (hSame ▸ by decide) hPlain
    exact orderly_checked_of_ok
      (select?_eq_ok hId hType (isPluralType_eq_false hPlain) hNonempty hSelect) t
  · -- a style that is committed is not empty, so the node of the placeholder is accepted
    refine orderly_bind_at (orderly_require _ _ s) fun _ t hRequire => ?_
    obtain ⟨hValue, -⟩ := accepts_require.mp hRequire
    refine orderly_bind_at (orderly_commitStyle _ t) fun style u hCommit => ?_
    obtain ⟨rfl, -⟩ := accepts_commitStyle.mp hCommit
    have hStyle : some (StyleScan.ofSource s).value ≠ some "" := by
      intro hEmpty
      rw [Option.some.inj hEmpty] at hValue
      exact absurd hValue (by decide)
    exact orderly_checked_of_ok (typed?_eq_ok hId hType hPlain hStyle) u

/-- The argument of a placeholder is orderly, whatever its type is. -/
theorem orderly_argument {id type : String} (hId : id ≠ "") (hType : type ≠ "") :
    (argument body id type).Orderly := by
  unfold argument
  split
  · exact orderly_pluralArgument hBody hId _
  · next hKind =>
    split
    · exact orderly_selectArgument hBody hId
    · next hSelect =>
      exact orderly_styleArgument hBody hId hType
        (not_mem_casedTypes_iff.mpr ⟨hKind, hSelect⟩)

/-- All that may follow a type is orderly, since the type is no empty word. -/
theorem orderly_afterType {id type : String} (hId : id ≠ "") (hType : type ≠ "") :
    (afterType body id type).Orderly := by
  -- the placeholder is closed, or its third part follows a comma
  refine orderly_closeOr ?_ ?_
  · intro t
    refine orderly_bind_at (orderly_require _ _ _) fun _ u hRequire => ?_
    obtain ⟨hTakes, rfl⟩ := accepts_require.mp hRequire
    -- a type that takes cases does not get past the check
    have hPlain : type ∉ casedTypes := by
      rw [← takesCases_iff]
      simpa using hTakes
    refine orderly_bind_at (orderly_take (by decide) _ t) fun _ u _ => ?_
    exact orderly_checked_of_ok (typed?_eq_ok hId hType hPlain (by simp)) u
  · exact (orderly_demand (by decide) _ _).bind fun _ => orderly_space.bind fun _ =>
      (orderly_argument hBody hId hType).bind fun _ =>
      orderly_close.bind fun _ => orderly_pure _

/-- All that may follow an identifier is orderly, since the identifier is no empty word. -/
theorem orderly_afterId {id : String} (hId : id ≠ "") : (afterId body id).Orderly := by
  refine orderly_closeOr ?_ ?_
  · intro t
    refine orderly_bind_at (orderly_take (by decide) _ t) fun _ u _ => ?_
    exact orderly_checked_of_ok (simple?_eq_ok hId) u
  · refine (orderly_demand (by decide) _ _).bind fun _ => orderly_space.bind fun _ s => ?_
    refine orderly_bind_at (orderly_name (by decide) _ s) fun type t hName => ?_
    exact orderly_afterType hBody hId (accepts_name.mp hName).2 t

/-- A placeholder is orderly: its identifier is a word, and no word is empty. -/
theorem orderly_placeholder : (placeholder body).Orderly := by
  refine orderly_space.bind fun _ s => ?_
  refine orderly_bind_at (orderly_name (by decide) _ s) fun id t hName => ?_
  exact orderly_afterId hBody (accepts_name.mp hName).2 t

/-- An element is orderly, whichever of the four kinds it is. -/
theorem orderly_element (poundIsNumber : Bool) :
    (element body poundIsNumber).Orderly := by
  have hText : (text poundIsNumber >>= fun value =>
      (pure (.text value) : Reader Element)).Orderly :=
    (orderly_text _).bind fun _ => orderly_pure _
  refine fun s => orderly_peek_bind_at ?_
  -- a brace or a pound sign is taken where it has been seen
  split
  · next hOpen =>
    obtain ⟨u, rfl⟩ := List.head?_eq_some_iff.mp hOpen
    exact orderly_bind_at (orderly_take (by decide) _ u) fun _ t _ =>
      orderly_placeholder hBody t
  · next hPound =>
    obtain ⟨u, rfl⟩ := List.head?_eq_some_iff.mp hPound
    split
    · exact orderly_bind_at (orderly_take (by decide) _ u) fun _ t _ => orderly_pure _ t
    · exact hText _
  · exact hText s

theorem orderly_elements (cx : Context) : (elements body cx).Orderly :=
  (orderly_untilClose (elementItem body _) (orderly_element hBody _)).bind fun _ =>
    orderly_peek.bind fun _ => (orderly_require _ _).bind fun _ => orderly_pure _

end

/-- Every reply of a message reader is orderly. -/
theorem orderly_message (cx : Context) : (message cx).Orderly :=
  message_of_parts (fun _ => orderly_reject _)
    (fun _ hBody => hBody.bind fun _ => (orderly_demand (by decide) _ _).bind fun _ =>
      orderly_pure _)
    (fun _ cx hBody => orderly_elements hBody cx) cx

end Grammar

/-! ## Whole parses -/

/-- The four numbers of a cursor are those of a region. -/
theorem Cursor.ofInts?_span (c : Cursor) :
    Span.ofInts? c.pos (if c.isAtEnd then c.pos else c.pos + 1 : Nat) c.line c.column =
      .ok c.span := by
  have hStop := c.span.start_le_stop
  have hLine := c.span.one_le_line
  have hColumn := c.span.one_le_column
  simp only [span] at hStop hLine hColumn
  -- none of the four refusals applies
  unfold Span.ofInts?
  rw [dif_neg (by omega), dif_neg (by omega), dif_neg (by omega), dif_neg (by omega)]
  rfl

/-- What is said about a violation has a span at the cursor. -/
theorem Violation.span_diagnostic (cause : Violation) (c : Cursor) :
    (cause.diagnostic c).span = some c.span := by
  cases cause <;> rfl

/-- The codes under which a pattern is rejected. -/
def rejectionCodes : List Diagnostic.Code :=
  [.unexpectedToken, .expectedToken, .missingOther, .nestingDepthExceeded,
    .offsetOutOfRange]

/-- Every violation has one of the five codes of a rejection. -/
theorem Violation.code_mem_rejectionCodes (cause : Violation) (c : Cursor) :
    (cause.diagnostic c).code ∈ rejectionCodes := by
  cases cause <;> simp [diagnostic, rejectionCodes, Diagnostic.expectedToken,
    Diagnostic.unexpectedToken, Diagnostic.missingOther, Diagnostic.nestingDepthExceeded,
    Diagnostic.offsetOutOfRange]

namespace Parser

/-- **A parse ends in one of three ways.** Whatever the limits of the parser and
whatever the log holds already: a pattern that is too long is refused, and nothing is
logged. Any other pattern gives a message, or is rejected under one of five codes at a
place in the pattern whose offsets, line and column are those of a span. No node is
refused, no character is taken where none is left, and every numeral that is logged is
short enough to be read. -/
theorem parseInto_outcome (p : Parser) (pattern : PatternValue) (log : List Token) :
    (0 < p.maxLength ∧ p.maxLength < pattern.toText.length ∧
      p.parseInto pattern log =
        (.error (.tooLong pattern.toText.length p.maxLength.toNat), log)) ∨
    ¬(0 < p.maxLength ∧ p.maxLength < pattern.toText.length) ∧
      ∃ added : List Token,
        (∀ token ∈ added, token.kind = .number →
          ∃ n, Numeral.read? token.text.toList = some n) ∧
        ((∃ m, p.parseInto pattern log = (.ok m, log ++ added)) ∨
          ∃ (e : SyntaxError) (c : Cursor),
            p.parseInto pattern log = (.error (.rejected e), log ++ added) ∧
            e.diagnostic.code ∈ rejectionCodes ∧
            c.source = pattern.toText ∧ c.pos ≤ pattern.toText.length ∧
            e.diagnostic.span = some c.span ∧
            Span.ofInts? c.pos (if c.isAtEnd then c.pos else c.pos + 1 : Nat) c.line
              c.column = .ok c.span) := by
  -- a pattern that is too long is not read at all
  by_cases hLong : 0 < p.maxLength ∧ p.maxLength < pattern.toText.length
  · exact .inl ⟨hLong.1, hLong.2, parseInto_of_long hLong log⟩
  · have hOrderly : (p.reply pattern.toText).Orderly := Grammar.orderly_message _ _
    refine .inr ⟨hLong, (p.reply pattern.toText).tokens, hOrderly.numeral, ?_⟩
    rw [parseInto_of_short hLong]
    cases hResult : (p.reply pattern.toText).result with
    | ok m => exact .inl ⟨m, rfl⟩
    | error fault =>
      obtain ⟨cause, rfl⟩ := hOrderly.violation fault hResult
      -- the cursor stands where the log ends, which is not past the end of the text
      have hLength : (p.stoppedAt pattern.toText).pos ≤ pattern.toText.length := by
        have hTiles := (p.reply_tiles pattern.toText).joined_append_rest
        rw [← String.length_toList, ← hTiles, List.length_append]
        exact Nat.le_add_right ..
      exact .inr ⟨.ofViolation cause (p.stoppedAt pattern.toText),
        p.stoppedAt pattern.toText, rfl, cause.code_mem_rejectionCodes _, rfl, hLength,
        cause.span_diagnostic _, Cursor.ofInts?_span _⟩

end Parser

end MessagePattern
