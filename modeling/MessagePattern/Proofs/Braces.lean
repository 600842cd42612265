import MessagePattern.Proofs.Limits

/-!
# Braces count levels

In a log, the braces that are open tell how deep the reader is: two for each level, the
brace of a placeholder and the brace of a case, and one more inside a placeholder. The
count never falls below zero, and it stays below the brace with which the limit on nesting
is passed: the reader stops right there. Only tokens count. A brace that is quoted, or that
stands within a style, is part of a longer token.

* `Token.excess` — the braces that a log leaves open;
* `Reply.Braced`, `Reader.Braced` — the count over the log of a reply;
* `Reader.braced_bind_at`, `Reader.braced_untilClose` — readers built from readers;
* `Grammar.braced_message` — messages count by their level;
* `Parser.parseInto_excess` — the count over the log of a parse.
-/

namespace MessagePattern

/-! ## Open braces -/

/-- What a token does to the number of braces that are open. -/
def Token.Kind.weight : Token.Kind → Int
  | .openBrace => 1
  | .closeBrace => -1
  | _ => 0

/-- The opening braces of a log, less the closing ones. -/
def Token.excess (log : List Token) : Int :=
  (log.countP fun token => token.kind == .openBrace) -
    (log.countP fun token => token.kind == .closeBrace)

@[simp] theorem Token.excess_nil : Token.excess [] = 0 := rfl

@[simp] theorem Token.excess_append (log more : List Token) :
    Token.excess (log ++ more) = Token.excess log + Token.excess more := by
  unfold excess
  rw [List.countP_append, List.countP_append]
  omega

@[simp] theorem Token.excess_singleton (kind : Token.Kind) (text : String) :
    Token.excess [⟨kind, text⟩] = kind.weight := by
  cases kind <;> rfl

/-- The count over the log of a reply. Some braces are open before it. As long as tokens
follow, the count is neither negative nor as high as there is room for. A value comes with
its own count, and a fault with one that has taken all the room exactly if it is that the
limit on nesting has been passed. -/
structure Reply.Braced {α : Type} (r : Reply α) (before after room : Int) : Prop where
  inside : ∀ i < r.tokens.length, 0 ≤ before + Token.excess (r.tokens.take i) ∧
    before + Token.excess (r.tokens.take i) < room
  ok : ∀ a, r.result = .ok a → before + Token.excess r.tokens = after
  error : ∀ fault, r.result = .error fault → 0 ≤ before + Token.excess r.tokens ∧
    before + Token.excess r.tokens ≤ room ∧
    ((∃ limit, fault = .violation (.tooDeep limit)) ↔
      before + Token.excess r.tokens = room)

namespace Reader

variable {α β : Type} {before middle after room : Int}

/-- Every reply of a reader counts from so many open braces to so many. -/
def Braced (p : Reader α) (before after room : Int) : Prop :=
  ∀ s, (p.run s).Braced before after room

/-! ## Readers built from readers -/

/-- Readers in sequence, each at its own place: the count after the first is that before the second. -/
theorem braced_bind_at {p : Reader α} {next : α → Reader β} {s : List Char}
    (hFirst : (p.run s).Braced before middle room)
    (hNext : ∀ a t, p.Accepts s a t → ((next a).run t).Braced middle after room) :
    ((p >>= next).run s).Braced before after room := by
  cases hResult : (p.run s).result with
  | error fault =>
    -- the second reader does not run
    rw [run_bind_of_error hResult]
    refine ⟨hFirst.inside, by simp, ?_⟩
    intro fault' hFault
    obtain rfl : fault = fault' := Except.error.inj hFault
    exact hFirst.error fault hResult
  | ok a =>
    have hSecond := hNext a _ ⟨hResult, rfl⟩
    have hMiddle := hFirst.ok a hResult
    rw [run_bind_of_ok hResult]
    -- after the first log the count is that from which the second one starts
    refine ⟨?_, ?_, ?_⟩
    · -- a prefix of both logs ends within the first one, or is all of it and a prefix of the second
      intro i hi
      simp only [List.length_append] at hi
      simp only [List.take_append, Token.excess_append]
      by_cases hWithin : i < (p.run s).tokens.length
      · have hNone : i - (p.run s).tokens.length = 0 := by omega
        rw [hNone, List.take_zero, Token.excess_nil, Int.add_zero]
        exact hFirst.inside i hWithin
      · have hThere := hSecond.inside (i - (p.run s).tokens.length) (by omega)
        rw [List.take_of_length_le (by omega)]
        omega
    · intro b hOk
      have hAfter := hSecond.ok b hOk
      rw [Token.excess_append]
      omega
    · intro fault hFault
      have hThere := hSecond.error fault hFault
      rw [Token.excess_append, ← Int.add_assoc, hMiddle]
      exact hThere

/-- Readers in sequence: the count after the first is that before the second. -/
theorem Braced.bind {p : Reader α} {next : α → Reader β}
    (hFirst : p.Braced before middle room) (hNext : ∀ a, (next a).Braced middle after room) :
    (p >>= next).Braced before after room := by
  intro s
  exact braced_bind_at (hFirst s) fun a t _ => hNext a t

/-! ### Readers that open and close nothing -/

section
variable (hRoom : 0 ≤ before ∧ before < room)
include hRoom

/-- A reply without a log leaves the count as it is. It must not be that the limit on
nesting has been passed, for there is room. -/
theorem braced_of_unlogged {r : Reply α} (hLog : r.tokens = [])
    (hDeep : ∀ limit, r.result ≠ .error (.violation (.tooDeep limit))) :
    r.Braced before before room := by
  refine ⟨by simp [hLog], fun a _ => by simp [hLog], ?_⟩
  intro fault hFault
  rw [hLog, Token.excess_nil, Int.add_zero]
  refine ⟨hRoom.1, by omega, ?_, fun hFull => by omega⟩
  rintro ⟨limit, rfl⟩
  exact absurd hFault (hDeep limit)

theorem braced_pure (a : α) : (pure a : Reader α).Braced before before room :=
  fun _ => braced_of_unlogged hRoom rfl (by simp)

theorem braced_fail {fault : Fault} (hDeep : ∀ limit, fault ≠ .violation (.tooDeep limit)) :
    (fail fault : Reader α).Braced before before room :=
  fun _ => braced_of_unlogged hRoom rfl (by simpa using hDeep)

/-- A violation that is not about the depth may come at any count. -/
theorem braced_reject {cause : Violation} (hDeep : ∀ limit, cause ≠ .tooDeep limit) :
    (reject cause : Reader α).Braced before before room :=
  braced_fail hRoom (by simpa using hDeep)

theorem braced_checked (node : Except NodeError α) :
    (checked node).Braced before before room := by
  cases node with
  | ok a => exact braced_pure hRoom a
  | error cause => exact braced_fail hRoom (by simp)

theorem braced_lookAhead : lookAhead.Braced before before room :=
  fun _ => braced_of_unlogged hRoom rfl (by simp)

theorem braced_peek : peek.Braced before before room :=
  fun _ => braced_of_unlogged hRoom rfl (by simp)

/-- A condition opens and closes nothing. -/
theorem braced_require (condition : Bool) {cause : Violation}
    (hDeep : ∀ limit, cause ≠ .tooDeep limit) :
    (require condition cause).Braced before before room := by
  cases condition with
  | true => exact braced_pure hRoom ()
  | false => exact braced_reject hRoom hDeep

/-- One token counts by its kind. -/
theorem braced_of_logged {r : Reply α} {kind : Token.Kind} {text : String} {a : α}
    (hLog : r.tokens = [⟨kind, text⟩]) (hOk : r.result = .ok a)
    (hAfter : after = before + kind.weight) : r.Braced before after room := by
  refine ⟨?_, ?_, by simp [hOk]⟩
  · intro i hi
    obtain rfl : i = 0 := by simpa [hLog] using hi
    rw [List.take_zero, Token.excess_nil, Int.add_zero]
    exact hRoom
  · intro _ _
    rw [hLog, Token.excess_singleton, hAfter]

/-- A token that is no brace leaves the count as it is. -/
theorem braced_lexeme {kind : Token.Kind} (hKind : kind.weight = 0)
    (width : List Char → Nat) : (lexeme kind width).Braced before before room := by
  intro s
  by_cases hEmpty : (String.ofList (s.take (width s))).isEmpty = true
  · exact braced_of_unlogged hRoom (if_pos hEmpty) (by simp [lexeme])
  · exact braced_of_logged hRoom (if_neg hEmpty) rfl (by omega)

/-- A token taken counts by its kind. -/
theorem braced_take {kind : Token.Kind} (hAfter : after = before + kind.weight) :
    (take kind).Braced before after room := by
  intro s
  cases s with
  | nil =>
    -- nothing is taken, and the fault is another one
    have hStop : ((take kind).run []).Braced before before room :=
      braced_of_unlogged hRoom rfl (by simp [take, Reply.andThen])
    exact ⟨hStop.inside, by simp [take, Reply.andThen], hStop.error⟩
  | cons c t =>
    rw [run_take_cons]
    exact braced_of_logged hRoom rfl rfl hAfter

/-- A demanded token counts by its kind, and a missing one not at all. -/
theorem braced_demand (c : Char) {kind : Token.Kind} (what : Expectation)
    (hAfter : after = before + kind.weight) :
    (demand c kind what).Braced before after room :=
  (braced_peek hRoom).bind fun _ =>
    (braced_require hRoom _ (by simp)).bind fun _ =>
    braced_take hRoom hAfter

theorem braced_space : space.Braced before before room :=
  (braced_lexeme hRoom rfl _).bind fun _ => braced_pure hRoom ()

theorem braced_name {kind : Token.Kind} (hKind : kind.weight = 0) (what : Expectation) :
    (name kind what).Braced before before room :=
  (braced_lexeme hRoom hKind _).bind fun _ =>
    (braced_require hRoom _ (by simp)).bind fun _ => braced_pure hRoom _

/-- A piece of text opens and closes nothing: its braces are quoted. -/
theorem braced_text (poundIsNumber : Bool) : (text poundIsNumber).Braced before before room :=
  (braced_lookAhead hRoom).bind fun _ =>
    (braced_lexeme hRoom rfl _).bind fun _ => braced_pure hRoom _

/-- A style opens and closes nothing: its braces are quoted. -/
theorem braced_commitStyle (scan : StyleScan) :
    (commitStyle scan).Braced before before room :=
  fun _ => braced_of_logged hRoom rfl rfl (Int.add_zero before).symm

/-- An offset opens and closes nothing. -/
theorem braced_offsetClause? : offsetClause?.Braced before before room := by
  refine (braced_lookAhead hRoom).bind fun s => ?_
  split
  · refine (braced_lexeme hRoom rfl _).bind fun _ =>
      (braced_lexeme hRoom rfl _).bind fun _ => (braced_space hRoom).bind
      fun _ => (braced_lookAhead hRoom).bind fun digits =>
      (braced_require hRoom _ (by simp)).bind fun _ => ?_
    split
    · exact braced_reject hRoom (by simp)
    · exact (braced_lexeme hRoom rfl _).bind fun _ => braced_pure hRoom _
  · exact braced_pure hRoom none

theorem braced_untilClose (item : Item α)
    (hItem : item.toReader.Braced before before room) :
    (untilClose item).Braced before before room :=
  untilClose_preserves (P := fun r _ => r.Braced before before room) (braced_pure hRoom)
    braced_bind_at hItem

end

end Reader

/-! ## The grammar -/

namespace Grammar

open Reader

/-- A case opens a brace, and its message closes it. -/
theorem braced_caseEntry {before opened room : Int} (hRoom : 0 ≤ before ∧ before < room)
    (hOpened : opened = before + 1) {body : Reader Message}
    (hBody : body.Braced opened before room) : (caseEntry body).Braced before before room :=
  (braced_name hRoom rfl _).bind fun _ => (braced_space hRoom).bind fun _ =>
    (braced_demand hRoom _ _ hOpened).bind fun _ => hBody.bind fun _ =>
    (braced_space hRoom).bind fun _ => braced_pure hRoom _

/-- After blanks, a placeholder is closed by one brace, or goes on. -/
theorem braced_closeOr {α : Type} {before after room : Int} {p q : Reader α}
    (hRoom : 0 ≤ before ∧ before < room) (hClose : p.Braced before after room)
    (hGoOn : q.Braced before after room) :
    (space >>= fun _ => peek >>= fun next =>
      if next == some '\x7d' then p else q).Braced before after room := by
  refine (braced_space hRoom).bind fun _ => (braced_peek hRoom).bind fun _ => ?_
  split
  · exact hClose
  · exact hGoOn

section
variable {body : Body} {depth room : Int} (hDepth : 0 ≤ depth) (hRoom : 2 * depth + 1 < room)
  (hBody : ∀ b, (body b).Braced (2 * depth + 2) (2 * depth + 1) room)
include hDepth hRoom hBody

/-- Inside a placeholder one brace more is open than at the level of its message, and two
more where a case is read. -/
theorem braced_caseList (construct : String) (b requireOther : Bool) :
    (caseList body construct b requireOther).Braced (2 * depth + 1) (2 * depth + 1) room := by
  have hInside : 0 ≤ 2 * depth + 1 ∧ 2 * depth + 1 < room := by omega
  have hEntry : (caseEntry (body b)).Braced (2 * depth + 1) (2 * depth + 1) room :=
    braced_caseEntry hInside (by omega) (hBody b)
  exact (braced_untilClose hInside (caseItem _) hEntry).bind fun _ =>
    (braced_require hInside _ (by simp)).bind fun _ => braced_checked hInside _

/-- Inside a placeholder the count stays at one over twice the depth. -/
theorem braced_argument (id type : String) :
    (argument body id type).Braced (2 * depth + 1) (2 * depth + 1) room := by
  have hInside : 0 ≤ 2 * depth + 1 ∧ 2 * depth + 1 < room := by omega
  have hCases := braced_caseList hDepth hRoom hBody
  unfold argument
  split
  · -- a plural argument: the offset, then the cases
    have hOffset : offset.Braced (2 * depth + 1) (2 * depth + 1) room := by
      refine (braced_offsetClause? hInside).bind fun clause => ?_
      cases clause with
      | some n => exact (braced_space hInside).bind fun _ => braced_pure hInside n
      | none => exact braced_pure hInside 0
    exact hOffset.bind fun _ => (hCases _ _ _).bind fun _ => braced_checked hInside _
  · -- a select or a custom placeholder with cases of its own, or a style
    split
    · exact (hCases _ _ _).bind fun _ => braced_checked hInside _
    · refine ((braced_lookAhead hInside).bind fun _ => braced_pure hInside _).bind
        fun scan => ?_
      split
      · exact (hCases _ _ _).bind fun _ => braced_checked hInside _
      · exact (braced_require hInside _ (by simp)).bind fun _ =>
          (braced_commitStyle hInside scan).bind fun _ => braced_checked hInside _

/-- After its opening brace, a placeholder closes one brace. -/
theorem braced_placeholder :
    (placeholder body).Braced (2 * depth + 1) (2 * depth) room := by
  have hInside : 0 ≤ 2 * depth + 1 ∧ 2 * depth + 1 < room := by omega
  have hOutside : 0 ≤ 2 * depth ∧ 2 * depth < room := by omega
  have hWeight : 2 * depth = 2 * depth + 1 + Token.Kind.weight .closeBrace := by
    simp only [Token.Kind.weight]
    omega
  -- the three ways in which a placeholder is closed
  have hTake : ∀ node : Except NodeError Element,
      (take .closeBrace >>= fun _ => checked node).Braced (2 * depth + 1) (2 * depth) room :=
    fun node => (braced_take hInside hWeight).bind fun _ => braced_checked hOutside node
  have hClose : ∀ e : Element,
      (close >>= fun _ => (pure e : Reader Element)).Braced (2 * depth + 1) (2 * depth)
        room :=
    fun e => ((braced_space hInside).bind fun _ => braced_demand hInside _ _ hWeight).bind
      fun _ => braced_pure hOutside e
  have hComma : separator.Braced (2 * depth + 1) (2 * depth + 1) room :=
    braced_demand hInside _ _ (Int.add_zero _).symm
  -- the identifier, then the type, each followed by the closing brace or a comma
  refine (braced_space hInside).bind fun _ => (braced_name hInside rfl _).bind fun id => ?_
  refine braced_closeOr hInside (hTake _) (hComma.bind fun _ => ?_)
  refine (braced_space hInside).bind fun _ => (braced_name hInside rfl _).bind fun type => ?_
  refine braced_closeOr hInside ?_ (hComma.bind fun _ => ?_)
  · exact (braced_require hInside _ (by simp)).bind fun _ => hTake _
  · exact (braced_space hInside).bind fun _ =>
      (braced_argument hDepth hRoom hBody id type).bind fun e => hClose e

/-- An element closes what it opens. -/
theorem braced_element (b : Bool) :
    (element body b).Braced (2 * depth) (2 * depth) room := by
  have hOutside : 0 ≤ 2 * depth ∧ 2 * depth < room := by omega
  have hText : (text b >>= fun value =>
      (pure (.text value) : Reader Element)).Braced (2 * depth) (2 * depth) room :=
    (braced_text hOutside b).bind fun _ => braced_pure hOutside _
  refine (braced_peek hOutside).bind fun _ => ?_
  -- a placeholder, a pound sign, or text
  split
  · exact (braced_take hOutside rfl).bind fun _ => braced_placeholder hDepth hRoom hBody
  · split
    · exact (braced_take hOutside (Int.add_zero _).symm).bind fun _ => braced_pure hOutside _
    · exact hText
  · exact hText

/-- The elements of a message close what they open. -/
theorem braced_elements (cx : Context) :
    (elements body cx).Braced (2 * depth) (2 * depth) room := by
  have hOutside : 0 ≤ 2 * depth ∧ 2 * depth < room := by omega
  exact (braced_untilClose hOutside (elementItem body _)
    (braced_element hDepth hRoom hBody _)).bind fun _ => (braced_peek hOutside).bind fun _ =>
    (braced_require hOutside _ (by simp)).bind fun _ => braced_pure hOutside _

end

/-- After its opening brace, a message one level down closes one brace. -/
theorem braced_closed {depth room : Int} (hDepth : 0 ≤ depth) (hRoom : 2 * depth + 2 < room)
    {body : Reader Message} (hBody : body.Braced (2 * (depth + 1)) (2 * (depth + 1)) room) :
    (closed body).Braced (2 * depth + 2) (2 * depth + 1) room := by
  have hLevel : 2 * (depth + 1) = 2 * depth + 2 := by omega
  have hWeight : 2 * depth + 1 = 2 * depth + 2 + Token.Kind.weight .closeBrace := by
    simp only [Token.Kind.weight]
    omega
  rw [hLevel] at hBody
  exact hBody.bind fun _ => (braced_demand (by omega) _ _ hWeight).bind fun _ =>
    braced_pure (by omega) _

/-- The brace of a case that stands at the limit has taken the last room. -/
theorem braced_tooDeep (limit : Int) {before after room : Int} (hBefore : 0 ≤ before)
    (hFull : before = room) :
    (reject (.tooDeep limit) : Reader Message).Braced before after room := by
  intro s
  refine ⟨by simp [reject], by simp [reject], ?_⟩
  intro fault hFault
  obtain rfl : .violation (.tooDeep limit) = fault := Except.error.inj hFault
  have hLog : ((reject (.tooDeep limit) : Reader Message).run s).tokens = [] := rfl
  rw [hLog, Token.excess_nil, Int.add_zero]
  exact ⟨hBefore, by omega, iff_of_true ⟨limit, rfl⟩ hFull⟩

/-- A message starts and ends with two open braces for each level above it, and there is
room for two more than that on the last level. -/
theorem braced_message (cx : Context) (hDepth : 0 ≤ cx.depth) (hLimit : cx.depth ≤ cx.limit) :
    (message cx).Braced (2 * cx.depth) (2 * cx.depth) (2 * cx.limit + 2) := by
  -- by induction on the levels that are left
  induction cx using message_induction with
  | step cx ih =>
    rw [message_eq]
    refine braced_elements hDepth (by omega) (fun b => ?_) cx
    -- a message in braces, or an error behind its opening brace
    unfold subMessage
    split
    · next hFull =>
      have hLast : cx.limit ≤ cx.depth := by simpa [Context.isFull] using hFull
      exact braced_tooDeep _ (by omega) (by omega)
    · next hFull =>
      have hBelow : cx.depth < cx.limit := by simpa [Context.isFull] using hFull
      have hMessage := ih hFull b (Int.le_add_one hDepth) hBelow
      exact braced_closed hDepth (by omega) hMessage

end Grammar

/-! ## Whole parses -/

/-- Where nothing is open before a log, the count is between zero and all the room there is,
all along. -/
theorem Reply.Braced.excess_take {α : Type} {r : Reply α} {after room : Int}
    (h : r.Braced 0 after room) (hAfter : 0 ≤ after) (hRoom : after ≤ room) (i : Nat) :
    0 ≤ Token.excess (r.tokens.take i) ∧ Token.excess (r.tokens.take i) ≤ room := by
  by_cases hInside : i < r.tokens.length
  · -- inside of the log
    have hHere := h.inside i hInside
    omega
  · -- the whole log
    rw [List.take_of_length_le (by omega)]
    cases hResult : r.result with
    | ok a =>
      have hEnd := h.ok a hResult
      omega
    | error fault =>
      obtain ⟨hLow, hHigh, -⟩ := h.error fault hResult
      omega

namespace Parser

/-- A whole run starts at zero, and it has twice the limit and two as its room. -/
theorem braced_reply {p : Parser} (hNesting : 0 ≤ p.maxNesting) (s : String) :
    (p.reply s).Braced 0 0 (2 * p.maxNesting + 2) :=
  Grammar.braced_message p.rootContext (Int.le_refl 0) hNesting s.toList

/-- **Brace tokens balance, and they measure the depth.** Under a nesting limit that is not
negative, count the opening braces among the first so many tokens of a log, less the closing
ones. The count is never negative, and never more than two for each level that is allowed,
and two. A parse that gives a message ends with a count of zero, and its count stays below
that bound. The whole log reaches the bound exactly where the nesting limit ends the
parse. -/
theorem parseInto_excess (p : Parser) (hNesting : 0 ≤ p.maxNesting) (pattern : PatternValue) :
    (∀ i, 0 ≤ Token.excess ((p.parseInto pattern []).2.take i) ∧
      Token.excess ((p.parseInto pattern []).2.take i) ≤ 2 * p.maxNesting + 2) ∧
    (∀ m, p.parse pattern = .ok m →
      Token.excess (p.parseInto pattern []).2 = 0 ∧
        ∀ i, Token.excess ((p.parseInto pattern []).2.take i) ≤ 2 * p.maxNesting + 1) ∧
    (StopsTooDeep (p.parse pattern) ↔
      Token.excess (p.parseInto pattern []).2 = 2 * p.maxNesting + 2) := by
  by_cases hLong : 0 < p.maxLength ∧ p.maxLength < pattern.toText.length
  · -- nothing is read of a pattern that is too long, so nothing is opened
    rw [parse, parseInto_of_long hLong]
    simp only [List.take_nil, Token.excess_nil]
    refine ⟨fun i => by omega, fun m hOk => by simp at hOk, ?_⟩
    refine iff_of_false ?_ (by omega)
    rintro ⟨e, hRejected, -⟩
    simp at hRejected
  · have hBraced := braced_reply hNesting pattern.toText
    rw [parse_of_short hLong, parseInto_of_short hLong, List.nil_append]
    dsimp only
    -- every prefix, then a success, then the error that fills the room
    refine ⟨hBraced.excess_take (Int.le_refl 0) (by omega), ?_, ?_⟩
    · intro m hMapped
      have hOk := eq_ok_of_mapError hMapped
      -- a success has closed what it opened
      have hEnd := hBraced.ok m hOk
      rw [Int.zero_add] at hEnd
      refine ⟨hEnd, fun i => ?_⟩
      by_cases hInside : i < (p.reply pattern.toText).tokens.length
      · have hHere := hBraced.inside i hInside
        omega
      · rw [List.take_of_length_le (by omega)]
        omega
    · rw [stopsTooDeep_iff]
      cases hResult : (p.reply pattern.toText).result with
      | ok m =>
        have hEnd := hBraced.ok m hResult
        exact iff_of_false (by simp) (by omega)
      | error fault =>
        -- only the error about the depth has no room left
        obtain ⟨-, -, hFull⟩ := hBraced.error fault hResult
        rw [Int.zero_add] at hFull
        simp only [Except.error.injEq]
        exact hFull

/-- A case within a case is one level too deep for this parser. The brace that is quoted in
front of it does not count. -/
theorem parseInto_excess_of_tooDeep :
    0 ≤ (Parser.mk 0 1).maxNesting ∧
      (Parser.mk 0 1).parse (.text "\x7ba,b,c\x7b'\x7d'\x7bd,e,f\x7bx") =
        .error (.rejected (.ofViolation (.tooDeep 1)
          ⟨"\x7ba,b,c\x7b'\x7d'\x7bd,e,f\x7bx", 17⟩)) ∧
      Token.excess ((Parser.mk 0 1).parseInto
        (.text "\x7ba,b,c\x7b'\x7d'\x7bd,e,f\x7bx") []).2 = 2 * 1 + 2 := by
  refine ⟨by decide, ?rejected, ?_⟩
  · decide +kernel
  · exact (parseInto_excess (Parser.mk 0 1) (by decide) _).2.2.mp ⟨_, ?rejected, rfl⟩

end Parser

end MessagePattern
