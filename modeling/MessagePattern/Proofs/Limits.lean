import MessagePattern.Proofs.Outcomes

/-!
# Raising the nesting limit

The limit on nesting has a say in one place only: where the brace of a sub-message
has been taken and no level is left. So a reader with more levels does what a reader
with fewer levels does, up to the place where the fewer levels give out, and from
there it goes on.

* `Reader.ExtendsAt`, `Reader.Extends` — one reader replies as another one does, or
  goes on where the other one has no levels left;
* `Reader.Extends.bind`, `Reader.extends_untilClose` — readers built from readers;
* `Grammar.extends_subMessage`, `Grammar.extends_message` — more levels extend fewer;
* `Parser.StopsTooDeep` — a parse that the nesting limit ends;
* `Parser.parseInto_of_higherLimit` — what a higher limit changes about a parse.
-/

namespace MessagePattern

namespace Reader

variable {α β : Type}

/-- On this text, a reader replies as another one does, unless the other one has no
levels left. Then its log goes on from the log of the other one. -/
def ExtendsAt (q p : Reader α) (s : List Char) : Prop :=
  q.run s = p.run s ∨
    (∃ limit, (p.run s).result = .error (.violation (.tooDeep limit))) ∧
      (p.run s).tokens <+: (q.run s).tokens

/-- On every text, a reader replies as another one does, or goes on where the other
one has no levels left. -/
def Extends (q p : Reader α) : Prop := ∀ s, q.ExtendsAt p s

/-! ## Readers built from readers -/

theorem Extends.refl (p : Reader α) : p.Extends p := fun _ => .inl rfl

/-- A reader without levels has logged nothing, so every log goes on from its log. -/
theorem extends_tooDeep (q : Reader α) (limit : Int) :
    q.Extends (reject (.tooDeep limit)) := by
  intro s
  exact .inr ⟨⟨limit, rfl⟩, List.nil_prefix⟩

/-- What follows a reader adds to its log. -/
theorem tokens_prefix_bind (p : Reader α) (next : α → Reader β) (s : List Char) :
    (p.run s).tokens <+: ((p >>= next).run s).tokens := by
  cases hResult : (p.run s).result with
  | ok a =>
    rw [run_bind_of_ok hResult]
    exact List.prefix_append ..
  | error fault =>
    have hSame : ((p >>= next).run s).tokens = (p.run s).tokens := by
      rw [run_bind_of_error hResult]
    exact ⟨[], by rw [hSame, List.append_nil]⟩

/-- A sequence extends another at a place if the parts do, each where it starts. -/
theorem extendsAt_bind {q p : Reader α} {next' next : α → Reader β} {s : List Char}
    (hFirst : q.ExtendsAt p s)
    (hNext : ∀ a t, p.Accepts s a t → (next' a).ExtendsAt (next a) t) :
    (q >>= next').ExtendsAt (p >>= next) s := by
  rcases hFirst with hSame | ⟨⟨limit, hDeep⟩, hLog⟩
  · cases hResult : (p.run s).result with
    | ok a =>
      have hResult' : (q.run s).result = .ok a := by rw [hSame, hResult]
      rw [ExtendsAt, run_bind_of_ok hResult, run_bind_of_ok hResult', hSame]
      -- both logs begin with what the first reader logged
      rcases hNext a _ ⟨hResult, rfl⟩ with hAgain | ⟨hDeep, hLog⟩
      · left
        rw [hAgain]
      · right
        exact ⟨hDeep, (List.prefix_append_right_inj _).mpr hLog⟩
    | error fault =>
      left
      have hResult' : (q.run s).result = .error fault := by rw [hSame, hResult]
      rw [run_bind_of_error hResult, run_bind_of_error hResult', hSame]
  · -- the levels give out in the first reader, so what follows it does not run
    right
    rw [run_bind_of_error hDeep]
    exact ⟨⟨limit, rfl⟩, hLog.trans (tokens_prefix_bind q next' s)⟩

/-- Sequences extend each other part by part. -/
theorem Extends.bind {q p : Reader α} {next' next : α → Reader β} (hFirst : q.Extends p)
    (hNext : ∀ a, (next' a).Extends (next a)) : (q >>= next').Extends (p >>= next) := by
  intro s
  exact extendsAt_bind (hFirst s) fun a t _ => hNext a t

/-- What follows a reader may be extended where the reader stays as it is. -/
theorem Extends.after (p : Reader α) {next' next : α → Reader β}
    (hNext : ∀ a, (next' a).Extends (next a)) : (p >>= next').Extends (p >>= next) :=
  (Extends.refl p).bind hNext

/-- Lists of members extend each other if the members do. -/
theorem extends_untilClose (item' item : Item α)
    (hItem : item'.toReader.Extends item.toReader) :
    (untilClose item').Extends (untilClose item) := by
  intro s
  -- by induction on the members that are still to come
  induction s using untilClose_induction item with
  | step s ih =>
    rw [ExtendsAt, untilClose_run, untilClose_run]
    by_cases hEnds : closesHere s = true
    · left
      rw [if_pos hEnds, if_pos hEnds]
    · rw [if_neg hEnds, if_neg hEnds]
      refine extendsAt_bind (hItem s) fun a t hFirst => ?_
      obtain ⟨hOk, rfl⟩ := hFirst
      exact extendsAt_bind (ih a (by simpa using hEnds) hOk) fun l _ _ => .inl rfl

end Reader

/-! ## The grammar -/

namespace Grammar

open Reader

theorem extends_caseEntry {body' body : Reader Message} (hBody : body'.Extends body) :
    (caseEntry body').Extends (caseEntry body) :=
  .after _ fun _ => .after _ fun _ => .after _ fun _ => hBody.bind fun _ => .refl _

theorem extends_closed {body' body : Reader Message} (hBody : body'.Extends body) :
    (closed body').Extends (closed body) :=
  hBody.bind fun _ => .refl _

section
variable {body' body : Body} (hBody : ∀ b, (body' b).Extends (body b))
include hBody

theorem extends_caseList (construct : String) (poundIsNumber requireOther : Bool) :
    (caseList body' construct poundIsNumber requireOther).Extends
      (caseList body construct poundIsNumber requireOther) :=
  (extends_untilClose (caseItem _) (caseItem _)
    (extends_caseEntry (hBody poundIsNumber))).bind fun _ => .refl _

/-- Arguments extend each other if the bodies of their cases do, whatever the type is. -/
theorem extends_argument (id type : String) :
    (argument body' id type).Extends (argument body id type) := by
  unfold argument
  split
  · exact .after _ fun _ => (extends_caseList hBody _ _ _).bind fun _ => .refl _
  · split
    · exact (extends_caseList hBody _ _ _).bind fun _ => .refl _
    · -- the scan of a style sees the text alone, so both take the same branch
      refine .after _ fun scan => ?_
      split
      · exact (extends_caseList hBody _ _ _).bind fun _ => .refl _
      · exact .refl _

/-- What follows a type extends what follows it under a lower limit. -/
theorem extends_afterType (id type : String) :
    (afterType body' id type).Extends (afterType body id type) := by
  refine .after _ fun _ => .after _ fun _ => ?_
  split
  · exact .refl _
  · exact .after _ fun _ => .after _ fun _ =>
      (extends_argument hBody id type).bind fun _ => .refl _

/-- Placeholders extend each other if the bodies of their cases do. -/
theorem extends_placeholder : (placeholder body').Extends (placeholder body) := by
  refine .after _ fun _ => .after _ fun id => .after _ fun _ => .after _ fun _ => ?_
  split
  · exact .refl _
  · exact .after _ fun _ => .after _ fun _ => .after _ fun type =>
      extends_afterType hBody id type

/-- Elements extend each other if the bodies of their cases do. -/
theorem extends_element (poundIsNumber : Bool) :
    (element body' poundIsNumber).Extends (element body poundIsNumber) := by
  refine .after _ fun _ => ?_
  split
  · exact .after _ fun _ => extends_placeholder hBody
  · exact .refl _
  · exact .refl _

/-- A list of elements does not look at the limit, but at the level. -/
theorem extends_elements {cx' cx : Context} (hTop : cx'.isTopLevel = cx.isTopLevel)
    (hPound : cx'.poundIsNumber = cx.poundIsNumber) :
    (elements body' cx').Extends (elements body cx) := by
  unfold elements
  rw [hTop, hPound]
  exact (extends_untilClose (elementItem _ _) (elementItem _ _)
    (extends_element hBody _)).bind fun _ => .refl _

end

/-- A sub-message that is read with as many levels to spare, or more. -/
theorem extends_subMessage (cx cx' : Context) (hDepth : 0 ≤ cx.depth)
    (hDepth' : 0 ≤ cx'.depth) (hLevels : cx.limit - cx.depth ≤ cx'.limit - cx'.depth)
    (poundIsNumber : Bool) :
    (subMessage cx' poundIsNumber).Extends (subMessage cx poundIsNumber) := by
  -- by induction on the levels; below the root neither message is at the top
  induction cx using message_induction generalizing cx' poundIsNumber with
  | step cx ih =>
    by_cases hFull : cx.isFull = true
    · -- no level is left below the lower limit, so whatever happens extends that
      have hNone : subMessage cx poundIsNumber = reject (.tooDeep cx.limit) := if_pos hFull
      rw [hNone]
      exact extends_tooDeep _ _
    · -- a level is left below the higher limit, too
      have hRoom : ¬cx'.isFull = true := by
        simp only [Context.isFull, decide_eq_true_eq] at hFull ⊢
        omega
      -- both limits leave room for a level more, so both messages are read element by element
      rw [subMessage, subMessage, if_neg hFull, if_neg hRoom, message_eq, message_eq]
      -- what stands in braces in this message extends it by the hypothesis
      refine extends_closed (extends_elements (fun b => ?_) ?_ rfl)
      · refine ih hFull poundIsNumber (cx'.enter poundIsNumber) ?_ ?_ ?_ b <;>
          simp only [Context.enter] <;> omega
      · rw [isTopLevel_enter hDepth, isTopLevel_enter hDepth']

/-- A message that is read at its level under a higher limit. -/
theorem extends_message (cx : Context) (hDepth : 0 ≤ cx.depth) {limit : Int}
    (hLimit : cx.limit ≤ limit) :
    (message { cx with limit := limit }).Extends (message cx) := by
  have hLevels : cx.limit - cx.depth ≤ limit - cx.depth := by omega
  rw [message_eq, message_eq]
  exact extends_elements
    (extends_subMessage cx { cx with limit := limit } hDepth hDepth hLevels) rfl rfl

end Grammar

/-! ## Whole parses -/

/-- A fault that is named otherwise is a fault still. -/
theorem eq_ok_of_mapError {ε ε' α : Type} {f : ε → ε'} {x : Except ε α} {a : α}
    (h : x.mapError f = .ok a) : x = .ok a := by
  cases x with
  | ok a' => exact congrArg Except.ok (Except.ok.inj h)
  | error cause => simp [Except.mapError] at h

/-- The depth code belongs to the depth violation alone. -/
theorem Violation.code_eq_nestingDepthExceeded_iff {cause : Violation} {c : Cursor} :
    (cause.diagnostic c).code = .nestingDepthExceeded ↔
      ∃ limit, cause = .tooDeep limit := by
  cases cause <;> simp [diagnostic, Diagnostic.expectedToken, Diagnostic.unexpectedToken,
    Diagnostic.missingOther, Diagnostic.nestingDepthExceeded, Diagnostic.offsetOutOfRange]

namespace Parser

/-- A parse that ends because sub-messages nest too deep. -/
def StopsTooDeep (result : Except Failure Message) : Prop :=
  ∃ e, result = .error (.rejected e) ∧ e.diagnostic.code = .nestingDepthExceeded

/-- A parse ends because sub-messages nest too deep where the reader does. -/
theorem stopsTooDeep_iff {result : Except Fault Message} {c : Cursor} :
    StopsTooDeep (result.mapError (Failure.ofFault c)) ↔
      ∃ limit, result = .error (.violation (.tooDeep limit)) := by
  cases result with
  -- a success is neither
  | ok m => simp [StopsTooDeep, Except.mapError]
  | error fault =>
    simp only [StopsTooDeep, Except.mapError, Except.error.injEq,
      Failure.ofFault_eq_rejected_iff]
    -- the code of an error tells its violation, and the other way round
    refine ⟨?_, ?_⟩
    · rintro ⟨e, ⟨cause, rfl, rfl⟩, hCode⟩
      obtain ⟨limit, rfl⟩ := Violation.code_eq_nestingDepthExceeded_iff.mp hCode
      exact ⟨limit, rfl⟩
    · rintro ⟨limit, rfl⟩
      exact ⟨_, ⟨_, rfl, rfl⟩, rfl⟩

/-- The reply under a higher limit is the reply under the lower one, or goes on where the
lower limit was reached. -/
theorem reply_of_higherLimit {p q : Parser} (hNesting : p.maxNesting ≤ q.maxNesting)
    (s : String) :
    q.reply s = p.reply s ∨
      (∃ limit, (p.reply s).result = .error (.violation (.tooDeep limit))) ∧
        (p.reply s).tokens <+: (q.reply s).tokens :=
  Grammar.extends_message p.rootContext (Int.le_refl 0) hNesting s.toList

/-- A reader that logged more stopped no earlier. -/
theorem stoppedAt_le_of_prefix {p q : Parser} {s : String}
    (hLog : (p.reply s).tokens <+: (q.reply s).tokens) :
    (p.stoppedAt s).pos ≤ (q.stoppedAt s).pos := by
  obtain ⟨more, hMore⟩ := hLog
  rw [stoppedAt, stoppedAt, ← hMore, Token.joined_append, List.length_append]
  exact Nat.le_add_right ..

/-- A reader that does not give a message rejects the pattern where it stopped. -/
theorem rejected_of_reply_error {q : Parser} {s : String} {failure : Failure}
    (h : (q.reply s).result.mapError (Failure.ofFault (q.stoppedAt s)) = .error failure) :
    ∃ e, failure = .rejected e ∧ e.offset = (q.stoppedAt s).pos := by
  have hOrderly : (q.reply s).Orderly := Grammar.orderly_message _ _
  cases hResult : (q.reply s).result with
  | ok m => simp [hResult, Except.mapError] at h
  | error fault =>
    obtain ⟨cause, rfl⟩ := hOrderly.violation fault hResult
    rw [hResult] at h
    refine ⟨.ofViolation cause (q.stoppedAt s), (Except.error.inj h).symm, ?_⟩
    exact SyntaxError.offset_ofViolation cause _

/-- **A higher nesting limit only goes on where the lower one was reached.** Of two parsers
with the same limit on length, let the second one allow as much nesting as the first, or
more. A parse that the first nesting limit does not end is the same parse under the second:
the same message or the same error, and the same log. Where the first limit ends it, the
log under the second goes on from the log under the first; and a pattern that is rejected
there too is rejected no earlier. -/
theorem parseInto_of_higherLimit (p q : Parser) (hLength : q.maxLength = p.maxLength)
    (hNesting : p.maxNesting ≤ q.maxNesting) (pattern : PatternValue) (log : List Token) :
    (¬StopsTooDeep (p.parse pattern) →
      q.parseInto pattern log = p.parseInto pattern log) ∧
    ∀ e, p.parse pattern = .error (.rejected e) →
      e.diagnostic.code = .nestingDepthExceeded →
      (p.parseInto pattern log).2 <+: (q.parseInto pattern log).2 ∧
        ∀ failure, q.parse pattern = .error failure →
          ∃ e', failure = .rejected e' ∧ e.offset ≤ e'.offset := by
  by_cases hLong : 0 < p.maxLength ∧ p.maxLength < pattern.toText.length
  · -- neither parser reads a pattern that is too long
    have hHere := parseInto_of_long hLong log
    have hThere := parseInto_of_long (p := q) (by rwa [hLength]) log
    rw [hLength] at hThere
    refine ⟨fun _ => hThere.trans hHere.symm, ?_⟩
    intro e hRejected
    rw [parse, parseInto_of_long hLong] at hRejected
    simp at hRejected
  · have hShort : ¬(0 < q.maxLength ∧ q.maxLength < pattern.toText.length) := by
      rwa [hLength]
    -- the reply is the same, or the lower limit has cut it off
    have hReply := reply_of_higherLimit hNesting pattern.toText
    rw [parseInto_of_short hLong, parseInto_of_short hShort, parse_of_short hLong,
      parse_of_short hShort]
    refine ⟨?_, ?_⟩
    · intro hOther
      rw [stopsTooDeep_iff] at hOther
      rcases hReply with hSame | ⟨hDeep, -⟩
      · rw [stoppedAt, stoppedAt, hSame]
      · exact absurd hDeep hOther
    · intro e hRejected _
      -- the log of the reply that was cut off is the beginning of the other
      have hPrefix : (p.reply pattern.toText).tokens <+: (q.reply pattern.toText).tokens := by
        rcases hReply with hSame | ⟨-, hLog⟩
        · exact ⟨[], by rw [hSame, List.append_nil]⟩
        · exact hLog
      refine ⟨(List.prefix_append_right_inj log).mpr hPrefix, ?_⟩
      intro failure hFailure
      -- both errors stand where the logs end
      obtain ⟨e', rfl, hThere⟩ := rejected_of_reply_error hFailure
      obtain ⟨e'', hSame, hHere⟩ := rejected_of_reply_error hRejected
      obtain rfl : e = e'' := Failure.rejected.inj hSame
      refine ⟨e', rfl, ?_⟩
      rw [hHere, hThere]
      exact stoppedAt_le_of_prefix hPrefix

/-- The inner case is one level too deep. With that level, what is missing is the brace
after the selector that follows it. -/
theorem parseInto_of_higherLimit_of_nested :
    (Parser.mk 0 2).maxLength = (Parser.mk 0 1).maxLength ∧
      (Parser.mk 0 1).maxNesting ≤ (Parser.mk 0 2).maxNesting ∧
      (Parser.mk 0 1).parse (.text "\x7ba,b,c\x7b\x7bd,e,f\x7bx\x7dy\x7d\x7d\x7d") =
        .error (.rejected (.ofViolation (.tooDeep 1)
          ⟨"\x7ba,b,c\x7b\x7bd,e,f\x7bx\x7dy\x7d\x7d\x7d", 14⟩)) ∧
      (Parser.mk 0 2).parse (.text "\x7ba,b,c\x7b\x7bd,e,f\x7bx\x7dy\x7d\x7d\x7d") =
        .error (.rejected (.ofViolation (.expected .subMessageOpen)
          ⟨"\x7ba,b,c\x7b\x7bd,e,f\x7bx\x7dy\x7d\x7d\x7d", 17⟩)) ∧
      ((Parser.mk 0 1).parseInto (.text "\x7ba,b,c\x7b\x7bd,e,f\x7bx\x7dy\x7d\x7d\x7d") []).2 <+:
        ((Parser.mk 0 2).parseInto
          (.text "\x7ba,b,c\x7b\x7bd,e,f\x7bx\x7dy\x7d\x7d\x7d") []).2 := by
  refine ⟨rfl, by decide, ?first, by decide +kernel, ?_⟩
  · decide +kernel
  · exact ((parseInto_of_higherLimit (Parser.mk 0 1) (Parser.mk 0 2) rfl (by decide) _ []).2
      _ ?first rfl).1

end Parser

end MessagePattern
