import MessagePattern.Parser
import MessagePattern.Proofs.Runs

/-!
# The log tiles the source

Whatever a reader takes off the front of a text it logs, in order and without gaps:
the texts of its tokens and the text that it leaves make up the text that it was
given. So the log of a pattern that parses is the pattern, and the log of a pattern
that is rejected is the pattern up to the error.

* `Reply.Tiles` — the tokens of a reply, none of them empty, and its rest make up
  the text;
* `Grammar.message_tiles` — every message reader has only such replies;
* `Parser.parseInto_tiles` — the log of a whole parse, and where its error is.
-/

namespace MessagePattern

/-- The tokens of a reply have text, and joined in front of the rest they are the
text that was read. -/
structure Reply.Tiles {α : Type} (r : Reply α) (s : List Char) : Prop where
  text_ne_empty : ∀ token ∈ r.tokens, token.text ≠ ""
  joined_append_rest : Token.joined r.tokens ++ r.rest = s

namespace Reader

variable {α β : Type}

/-- Every reply of the reader tiles the text that it was given. -/
def Tiles (p : Reader α) : Prop := ∀ s, (p.run s).Tiles s

/-! ## Readers built from readers -/

/-- Two readers one after the other tile a text if the first tiles it and the second tiles what the
first has left. -/
theorem tiles_bind_at {p : Reader α} {next : α → Reader β} {s : List Char}
    (hFirst : (p.run s).Tiles s)
    (hNext : ∀ a, (p.run s).result = .ok a →
      ((next a).run (p.run s).rest).Tiles (p.run s).rest) :
    ((p >>= next).run s).Tiles s := by
  cases h : (p.run s).result with
  | ok a =>
    -- the logs are joined where the first reader left off
    rw [run_bind_of_ok h]
    have hSecond := hNext a h
    refine ⟨?_, ?_⟩
    · intro token hToken
      rcases List.mem_append.mp hToken with hLeft | hRight
      · exact hFirst.text_ne_empty token hLeft
      · exact hSecond.text_ne_empty token hRight
    · rw [Token.joined_append, List.append_assoc, hSecond.joined_append_rest,
        hFirst.joined_append_rest]
  | error fault =>
    rw [run_bind_of_error h]
    exact ⟨hFirst.text_ne_empty, hFirst.joined_append_rest⟩

theorem Tiles.bind {p : Reader α} {next : α → Reader β} (hFirst : p.Tiles)
    (hNext : ∀ a, (next a).Tiles) : (p >>= next).Tiles :=
  fun s => tiles_bind_at (hFirst s) fun a _ => hNext a (p.run s).rest

theorem tiles_pure (a : α) : (pure a : Reader α).Tiles :=
  fun _ => ⟨by simp, rfl⟩

theorem tiles_fail (fault : Fault) : (fail fault : Reader α).Tiles :=
  fun _ => ⟨by simp, rfl⟩

theorem tiles_reject (cause : Violation) : (reject cause : Reader α).Tiles :=
  tiles_fail _

/-- A node is given or refused without reading anything. -/
theorem tiles_checked (node : Except NodeError α) : (checked node).Tiles := by
  cases node with
  | ok a => exact tiles_pure a
  | error cause => exact tiles_fail _

theorem tiles_lookAhead : lookAhead.Tiles :=
  fun _ => ⟨by simp, rfl⟩

theorem tiles_peek : peek.Tiles :=
  tiles_lookAhead.bind fun _ => tiles_pure _

/-- A condition is checked without reading anything. -/
theorem tiles_require (condition : Bool) (cause : Violation) :
    (require condition cause).Tiles := by
  cases condition with
  | true => exact tiles_pure ()
  | false => exact tiles_reject cause

/-- A front part of the text and what comes after it make up the text, and an empty
part is not logged. -/
theorem tiles_lexeme (kind : Token.Kind) (width : List Char → Nat) :
    (lexeme kind width).Tiles := by
  intro s
  have hCut : s.take (width s) ++ s.drop (width s) = s := List.take_append_drop ..
  unfold lexeme
  by_cases hEmpty : s.take (width s) = []
  · rw [hEmpty] at hCut
    exact ⟨by simp [hEmpty], by simpa [hEmpty] using hCut⟩
  · refine ⟨?_, ?_⟩
    · -- the text is cut where the lexeme ends, and an empty lexeme is not logged
      intro token hToken
      simp only [String.isEmpty_iff, String.ofList_eq_empty_iff, hEmpty, if_false,
        List.mem_singleton] at hToken
      rw [hToken]
      simp [hEmpty]
    · simp [Token.joined, hEmpty]

/-- A character that is taken is a token of one character. -/
theorem tiles_take (kind : Token.Kind) : (take kind).Tiles := by
  refine tiles_peek.bind fun next => ?_
  cases next with
  | some c => exact (tiles_lexeme kind _).bind fun _ => tiles_pure ()
  | none => exact tiles_fail _

theorem tiles_demand (c : Char) (kind : Token.Kind) (what : Expectation) :
    (demand c kind what).Tiles :=
  tiles_peek.bind fun _ => (tiles_require _ _).bind fun _ => tiles_take kind

theorem tiles_space : space.Tiles :=
  (tiles_lexeme _ _).bind fun _ => tiles_pure ()

theorem tiles_name (kind : Token.Kind) (what : Expectation) : (name kind what).Tiles :=
  (tiles_lexeme _ _).bind fun _ => (tiles_require _ _).bind fun _ => tiles_pure _

theorem tiles_text (poundIsNumber : Bool) : (text poundIsNumber).Tiles :=
  tiles_lookAhead.bind fun _ => (tiles_lexeme _ _).bind fun _ => tiles_pure _

/-- An offset tiles its text. -/
theorem tiles_offsetClause? : offsetClause?.Tiles := by
  refine tiles_lookAhead.bind fun s => ?_
  split
  · refine (tiles_lexeme _ _).bind fun _ => (tiles_lexeme _ _).bind fun _ =>
      tiles_space.bind fun _ =>
      tiles_lookAhead.bind fun digits => (tiles_require _ _).bind fun _ => ?_
    split
    · exact tiles_reject _
    · exact (tiles_lexeme _ _).bind fun _ => tiles_pure _
  · exact tiles_pure none

theorem tiles_untilClose (item : Item α) (hItem : item.toReader.Tiles) :
    (untilClose item).Tiles :=
  untilClose_preserves tiles_pure
    (fun hFirst hNext => tiles_bind_at hFirst fun c hOk => hNext c _ ⟨hOk, rfl⟩) hItem

end Reader

/-! ## Styles

A style is looked at before it is read. What is then read is the front part of the
text that the scan found, so it has to be read from that very text. -/

/-- The source text of a style is a front part of the text that was scanned. -/
theorem StyleScan.source_append_drop (s : List Char) :
    (StyleScan.ofSource s).source ++ s.drop (StyleScan.ofSource s).source.length = s := by
  -- the glyphs that trimming drops are at the end
  obtain ⟨blanks, hGlyphs⟩ := Glyph.trimmed_prefix (Dialect.style.scan false s).glyphs
  have hSource := Stretch.source_append_rest Dialect.style false s
  rw [hGlyphs, Glyph.sourceOf_append, List.append_assoc] at hSource
  have hPrefix : (StyleScan.ofSource s).source <+: s := ⟨_, hSource⟩
  rw [List.prefix_iff_eq_append.mp hPrefix]

/-- A style with a value has source text. -/
theorem StyleScan.source_ne_nil {scan : StyleScan} (h : scan.value.isEmpty = false) :
    scan.source ≠ [] := by
  intro hSource
  have hGlyphs : scan.glyphs = [] := by
    cases hg : scan.glyphs with
    | nil => rfl
    | cons g gs =>
      rw [StyleScan.source, hg] at hSource
      cases g <;> simp [Glyph.source] at hSource
  simp [StyleScan.value, hGlyphs] at h

/-- A style that has a value is read in full from the text in which it was found. -/
theorem Reader.tiles_commitStyle {s : List Char}
    (h : (StyleScan.ofSource s).value.isEmpty = false) :
    ((Reader.commitStyle (StyleScan.ofSource s)).run s).Tiles s := by
  refine ⟨?_, ?_⟩
  · intro token hToken
    rw [Reader.commitStyle, List.mem_singleton] at hToken
    rw [hToken]
    simpa using StyleScan.source_ne_nil h
  · simpa [Token.joined, Reader.commitStyle] using StyleScan.source_append_drop s

/-! ## The grammar -/

namespace Grammar

open Reader

/-- A case is tiled by its selector, its braces and what stands between them. -/
theorem tiles_caseEntry {body : Reader Message} (hBody : body.Tiles) :
    (caseEntry body).Tiles :=
  (tiles_name _ _).bind fun _ => tiles_space.bind fun _ =>
    (tiles_demand _ _ _).bind fun _ =>
    hBody.bind fun _ => tiles_space.bind fun _ => tiles_pure _

section
variable {body : Body} (hBody : ∀ poundIsNumber, (body poundIsNumber).Tiles)
include hBody

theorem tiles_caseList (construct : String) (poundIsNumber requireOther : Bool) :
    (caseList body construct poundIsNumber requireOther).Tiles :=
  (tiles_untilClose (caseItem _) (tiles_caseEntry (hBody poundIsNumber))).bind fun _ =>
    (tiles_require _ _).bind fun _ => tiles_checked _

/-- A plural argument tiles its text if the bodies of its cases do. -/
theorem tiles_pluralArgument (id : String) (kind : PluralKind) :
    (pluralArgument body id kind).Tiles := by
  have hOffset : offset.Tiles := tiles_offsetClause?.bind fun clause => by
    cases clause with
    | some n => exact tiles_space.bind fun _ => tiles_pure n
    | none => exact tiles_pure 0
  exact hOffset.bind fun _ => (tiles_caseList hBody _ _ _).bind fun _ => tiles_checked _

theorem tiles_selectArgument (id : String) : (selectArgument body id).Tiles :=
  (tiles_caseList hBody _ _ _).bind fun _ => tiles_checked _

/-- A style is tiled whether it is read as one token or as cases: the look ahead that decides takes
nothing. -/
theorem tiles_styleArgument (id type : String) : (styleArgument body id type).Tiles := by
  refine fun s => tiles_bind_at ((tiles_lookAhead.bind fun _ => tiles_pure _) s)
    fun scan hScan => ?_
  -- the scan takes nothing, so what follows runs on the text that was scanned
  obtain rfl : StyleScan.ofSource s = scan := by
    simpa [styleScan, Reply.andThen] using hScan
  have hRest : (styleScan.run s).rest = s := rfl
  rw [hRest]
  split
  · exact ((tiles_caseList hBody _ _ _).bind fun _ => tiles_checked _) s
  · refine tiles_bind_at (tiles_require _ _ s) fun _ hValue => ?_
    -- a style without a value is refused before it could be logged
    cases hEmpty : (StyleScan.ofSource s).value.isEmpty with
    | true => simp [hEmpty, require, reject] at hValue
    | false =>
      have hSame : ((require true (.expected .styleName)).run s).rest = s := rfl
      rw [Bool.not_false, hSame]
      exact tiles_bind_at (tiles_commitStyle hEmpty) fun _ _ => tiles_checked _ _

/-- An argument tiles its text if the bodies of its cases do. -/
theorem tiles_argument (id type : String) : (argument body id type).Tiles := by
  unfold argument
  split
  · exact tiles_pluralArgument hBody _ _
  · split
    · exact tiles_selectArgument hBody _
    · exact tiles_styleArgument hBody _ _

/-- After the type, what closes the placeholder tiles as well as the third part does. -/
theorem tiles_afterType (id type : String) : (afterType body id type).Tiles := by
  refine tiles_space.bind fun _ => tiles_peek.bind fun _ => ?_
  split
  · exact (tiles_require _ _).bind fun _ => (tiles_take _).bind fun _ => tiles_checked _
  · exact (tiles_demand _ _ _).bind fun _ => tiles_space.bind fun _ =>
      (tiles_argument hBody _ _).bind fun _ =>
        (tiles_space.bind fun _ => tiles_demand _ _ _).bind fun _ => tiles_pure _

/-- A placeholder tiles its text if the bodies of its cases do. -/
theorem tiles_placeholder : (placeholder body).Tiles := by
  refine tiles_space.bind fun _ => (tiles_name _ _).bind fun id =>
    tiles_space.bind fun _ =>
    tiles_peek.bind fun _ => ?_
  split
  · exact (tiles_take _).bind fun _ => tiles_checked _
  · exact (tiles_demand _ _ _).bind fun _ => tiles_space.bind fun _ =>
      (tiles_name _ _).bind fun _ => tiles_afterType hBody _ _

/-- An element tiles its text whichever character it begins with. -/
theorem tiles_element (poundIsNumber : Bool) : (element body poundIsNumber).Tiles := by
  refine tiles_peek.bind fun next => ?_
  split
  · exact (tiles_take _).bind fun _ => tiles_placeholder hBody
  · split
    · exact (tiles_take _).bind fun _ => tiles_pure _
    · exact (tiles_text _).bind fun _ => tiles_pure _
  · exact (tiles_text _).bind fun _ => tiles_pure _

theorem tiles_elements (cx : Context) : (elements body cx).Tiles :=
  (tiles_untilClose (elementItem body _) (tiles_element hBody _)).bind fun _ =>
    tiles_peek.bind fun _ => (tiles_require _ _).bind fun _ => tiles_pure _

end

/-- Every reply of a message reader tiles the text that it was given. -/
theorem message_tiles (cx : Context) : (message cx).Tiles :=
  message_of_parts (fun _ => tiles_reject _)
    (fun _ hBody => hBody.bind fun _ => (tiles_demand _ _ _).bind fun _ => tiles_pure _)
    (fun _ cx hBody => tiles_elements hBody cx) cx

end Grammar

/-! ## Runs from a cursor on -/

/-- The text from a cursor on that has moved forward. -/
theorem Cursor.rest_forward (c : Cursor) (k : Nat) :
    Cursor.rest { c with pos := c.pos + k } = c.rest.drop k := by
  unfold Cursor.rest
  rw [List.drop_drop]

/-- A reader that takes a number of characters moves the cursor over them. -/
theorem Reader.runAt_of_run {α : Type} {p : Reader α} {c : Cursor} {a : α}
    {log : List Token} {k : Nat} (hRun : p.run c.rest = ⟨.ok a, log, c.rest.drop k⟩)
    (hWidth : k ≤ c.rest.length) :
    p.runAt c = ⟨.ok a, log, { c with pos := c.pos + k }⟩ := by
  have hTaken : c.rest.length - (c.rest.drop k).length = k := by
    rw [List.length_drop]
    omega
  unfold Reader.runAt
  rw [hRun]
  simp only [hTaken]
  rfl

/-! ## Whole parses -/

/-- The offset of an error for a violation is that of the cursor. -/
@[simp] theorem SyntaxError.offset_ofViolation (cause : Violation) (c : Cursor) :
    (SyntaxError.ofViolation cause c).offset = c.pos := by
  cases cause <;> rfl

/-- A run of a message reader on a whole source text ends where its log ends. -/
theorem Grammar.message_runAt (cx : Context) (source : String) :
    (message cx).runAt ⟨source, 0⟩ =
      ⟨((message cx).run source.toList).result.mapError (Failure.ofFault
          ⟨source, (Token.joined ((message cx).run source.toList).tokens).length⟩),
        ((message cx).run source.toList).tokens,
        ⟨source, (Token.joined ((message cx).run source.toList).tokens).length⟩⟩ := by
  have hTiles := (message_tiles cx source.toList).joined_append_rest
  have hLength := congrArg List.length hTiles
  rw [List.length_append] at hLength
  have hPos : 0 + (source.toList.length - ((message cx).run source.toList).rest.length) =
      (Token.joined ((message cx).run source.toList).tokens).length := by omega
  simp only [Reader.runAt, Cursor.rest, List.drop_zero, hPos]

/-- A fault rejects the pattern exactly when it is a violation of the grammar. -/
theorem Failure.ofFault_eq_rejected_iff {c : Cursor} {fault : Fault} {e : SyntaxError} :
    Failure.ofFault c fault = .rejected e ↔
      ∃ cause, fault = .violation cause ∧ e = .ofViolation cause c := by
  cases fault <;> simp [Failure.ofFault, eq_comm]

namespace Parser

/-- The reply of the root message reader to a text. -/
def reply (p : Parser) (source : String) : Reply Message :=
  (Grammar.message p.rootContext).run source.toList

/-- The cursor at which the reading of a text ends. -/
def stoppedAt (p : Parser) (source : String) : Cursor :=
  ⟨source, (Token.joined (p.reply source).tokens).length⟩

/-- The tokens of a pattern tile as much of it as is read. -/
theorem reply_tiles (p : Parser) (source : String) :
    (p.reply source).Tiles source.toList :=
  Grammar.message_tiles p.rootContext source.toList

/-- A parse of a text that is not too long is the reply of the root message reader. -/
theorem parseInto_of_short {p : Parser} {pattern : PatternValue}
    (hShort : ¬(0 < p.maxLength ∧ p.maxLength < pattern.toText.length))
    (log : List Token) :
    p.parseInto pattern log =
      ((p.reply pattern.toText).result.mapError
          (Failure.ofFault (p.stoppedAt pattern.toText)),
        log ++ (p.reply pattern.toText).tokens) := by
  rw [parseInto, if_neg hShort, parseText, Grammar.message_runAt]
  rfl

/-- A text that is too long is not read at all. -/
theorem parseInto_of_long {p : Parser} {pattern : PatternValue}
    (hLong : 0 < p.maxLength ∧ p.maxLength < pattern.toText.length) (log : List Token) :
    p.parseInto pattern log =
      (.error (.tooLong pattern.toText.length p.maxLength.toNat), log) := by
  rw [parseInto, if_pos hLong]

/-- A pattern that is not too long is read, and only then can it be rejected. -/
theorem parse_of_short {p : Parser} {pattern : PatternValue}
    (hShort : ¬(0 < p.maxLength ∧ p.maxLength < pattern.toText.length)) :
    p.parse pattern = (p.reply pattern.toText).result.mapError
      (Failure.ofFault (p.stoppedAt pattern.toText)) := by
  rw [parse, parseInto_of_short hShort]

/-- A pattern that is not too long parses exactly where its reader gives a message. -/
theorem parse_eq_ok_iff {p : Parser} {pattern : PatternValue}
    (hShort : ¬(0 < p.maxLength ∧ p.maxLength < pattern.toText.length)) {m : Message} :
    p.parse pattern = .ok m ↔ (p.reply pattern.toText).result = .ok m := by
  rw [parse_of_short hShort]
  cases (p.reply pattern.toText).result with
  | ok found =>
    show Except.ok found = .ok m ↔ Except.ok found = .ok m
    simp
  | error fault =>
    show Except.error (Failure.ofFault _ fault) = .ok m ↔ Except.error fault = .ok m
    simp

/-- A pattern that is not too long is rejected exactly where its reader stops at a violation, and the
error is made there. -/
theorem parse_eq_rejected_iff {p : Parser} {pattern : PatternValue}
    (hShort : ¬(0 < p.maxLength ∧ p.maxLength < pattern.toText.length))
    {e : SyntaxError} :
    p.parse pattern = .error (.rejected e) ↔
      ∃ cause, (p.reply pattern.toText).result = .error (.violation cause) ∧
        e = .ofViolation cause (p.stoppedAt pattern.toText) := by
  rw [parse_of_short hShort]
  cases (p.reply pattern.toText).result with
  | ok found =>
    show Except.ok found = .error (Failure.rejected e) ↔ _
    simp
  | error fault =>
    show Except.error (Failure.ofFault _ fault) = .error (.rejected e) ↔ _
    simp [Failure.ofFault_eq_rejected_iff]

/-- The root message is read to the end of the text. -/
theorem reply_rest_of_ok {p : Parser} {source : String} {m : Message}
    (h : (p.reply source).result = .ok m) : (p.reply source).rest = [] := by
  have hTop : p.rootContext.isTopLevel = true := rfl
  exact Grammar.rest_eq_nil_of_accepts_message hTop ⟨h, rfl⟩

/-- **The log of a parse tiles the pattern.** Whatever the limits of the parser and
whatever the log holds already, a parse appends tokens that have text, and the
message or error does not depend on the log. The tokens make up the whole pattern
when there is a message, and the pattern up to the error when the pattern is
rejected. -/
theorem parseInto_tiles (p : Parser) (pattern : PatternValue) (log : List Token) :
    ∃ added : List Token,
      p.parseInto pattern log = (p.parse pattern, log ++ added) ∧
      (∀ token ∈ added, token.text ≠ "") ∧
      (∀ m, p.parse pattern = .ok m → Token.joined added = pattern.toText.toList) ∧
      (∀ e, p.parse pattern = .error (.rejected e) →
        e.offset ≤ pattern.toText.length ∧
          Token.joined added = pattern.toText.toList.take e.offset) := by
  by_cases hLong : 0 < p.maxLength ∧ p.maxLength < pattern.toText.length
  · -- a pattern that is too long is not read, so nothing is logged
    have hParse : p.parse pattern =
        .error (.tooLong pattern.toText.length p.maxLength.toNat) := by
      rw [parse, parseInto_of_long hLong]
    refine ⟨[], by rw [parseInto_of_long hLong, hParse, List.append_nil], by simp, ?_, ?_⟩
    · intro m hOk
      simp [hParse] at hOk
    · intro e hRejected
      simp [hParse] at hRejected
  · -- otherwise the tokens and the rest make up the pattern
    have hTiles := p.reply_tiles pattern.toText
    have hJoined := hTiles.joined_append_rest
    refine ⟨(p.reply pattern.toText).tokens, ?_, hTiles.text_ne_empty, ?_, ?_⟩
    · rw [parseInto_of_short hLong, parse_of_short hLong]
    · -- a message is given only at the end of the text
      intro m hOk
      rw [reply_rest_of_ok ((parse_eq_ok_iff hLong).mp hOk), List.append_nil] at hJoined
      exact hJoined
    · -- an error is made where the reader stopped, behind all that was logged
      intro e hRejected
      obtain ⟨cause, -, rfl⟩ := (parse_eq_rejected_iff hLong).mp hRejected
      rw [SyntaxError.offset_ofViolation, stoppedAt]
      refine ⟨?_, ?_⟩
      · show (Token.joined _).length ≤ _
        rw [← String.length_toList, ← hJoined, List.length_append]
        omega
      · rw [← hJoined, List.take_left']
        rfl

end Parser

end MessagePattern
