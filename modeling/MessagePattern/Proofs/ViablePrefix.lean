import MessagePattern.Proofs.Completion

/-!
# What was accepted before an error can be completed

An error is raised at the first character with which a pattern can go on no more.
Whatever has been read until then can go on: the placeholder that stops is
completed, then the messages around it are closed one by one. Where the text ends in
a message, an apostrophe may have to close a quoted run first. One more level of
nesting makes room for a message whose opening brace was one too many.

* `completed_elements`, `completed_open_message` — messages that stop, and messages
  that lack their brace;
* `completes_subMessage` — messages in braces are completed at every level;
* `Grammar.exists_completion` — a pattern that is rejected at an offset has a
  completion from there on.
-/

namespace MessagePattern

/-- The same place in a pattern, with room for one more level of nesting. -/
def Context.widened (cx : Context) : Context := { cx with limit := cx.limit + 1 }

/-- A limit that is one higher leaves one level more. -/
theorem Context.levelsLeft_widened {cx : Context} (hLimit : cx.depth ≤ cx.limit) :
    cx.widened.levelsLeft = cx.levelsLeft + 1 := by
  simp only [levelsLeft, widened]
  omega

namespace Grammar

open Reader Declared

/-! ## Messages -/

/-- Text is always read, so an element that stops is a placeholder. -/
theorem exists_placeholder_of_stops {body : Body} {b : Bool} {s t : List Char}
    {fault : Fault} (hStops : (element body b).Stops s fault t) :
    ∃ t₁, s = '\x7b' :: t₁ ∧ (placeholder body).Stops t₁ fault t := by
  rw [element, stops_peek_bind] at hStops
  split at hStops
  · next hHead =>
    obtain ⟨t₁, rfl⟩ := List.head?_eq_some_iff.mp hHead
    exact ⟨t₁, rfl, stops_take_bind.mp hStops⟩
  · next hHead =>
    obtain ⟨t₁, rfl⟩ := List.head?_eq_some_iff.mp hHead
    cases b <;> simp [stops_bind] at hStops
  · simp [stops_bind] at hStops

section
variable {body body' : Body} {R R' : Bool → Production Message}
  (h : Completes body body' R R')
include h

/-- A placeholder ends with its own closing brace, so any text may follow it. -/
theorem closed_placeholder : Closed (Placeholder R) := by
  intro s e t hPlaceholder
  obtain ⟨x, hText, hAny⟩ := exists_append_of_accepts (decided_placeholder h.isDecided s)
    (sealed_placeholder h.isDecided s) ((accepts_placeholder h.reads).mpr hPlaceholder)
  exact ⟨x, hText, fun t' => (accepts_placeholder h.reads).mp (hAny t')⟩

/-- A message that stops has been read up to some placeholder. -/
theorem exists_elements_of_stops {b : Bool} {s t : List Char} {fault : Fault}
    (hStops : (untilClose (elementItem body b)).Stops s fault t) :
    ∃ m t₁, Elements R b s m ('\x7b' :: t₁) ∧ (placeholder body).Stops t₁ fault t := by
  induction s using untilClose_induction (elementItem body b) with
  | step s ih =>
    -- the error is in the first element or after it; an element that stops is a placeholder
    rcases stops_untilClose.mp hStops with ⟨hGoesOn, hHere | ⟨e, t₁, hElement, hMore⟩⟩
    · obtain ⟨t₁, rfl, hPlaceholder⟩ := exists_placeholder_of_stops hHere
      exact ⟨[], t₁, .nil, hPlaceholder⟩
    · have hFound := (accepts_element h.reads hGoesOn).mp hElement
      obtain rfl := hElement.2
      obtain ⟨m, t₂, hElements, hPlaceholder⟩ := ih e hGoesOn hElement.1 hMore
      -- the element that was read is a text, a pound sign or a placeholder
      rcases hFound with ⟨v, hRun, hNonempty, rfl⟩ | ⟨hPound, hText, rfl⟩ |
        ⟨r, rfl, hFirst⟩
      · exact ⟨_, t₂, .text hRun hNonempty hElements, hPlaceholder⟩
      · rw [hText]
        exact ⟨_, t₂, .pound hPound hElements, hPlaceholder⟩
      · exact ⟨_, t₂, .placeholder hFirst hElements, hPlaceholder⟩

/-- A message that stops in a placeholder is completed to one that ends with it. -/
theorem completed_elements {b : Bool} {s x t : List Char} {cause : Violation}
    (hStops : (untilClose (elementItem body b)).Stops s (.violation cause) t)
    (hSplit : x ++ t = s) : ∃ u, ∀ k, ∃ m, Elements R' b (x ++ (u ++ k)) m k := by
  obtain ⟨m, t₁, hElements, hPlaceholder⟩ := exists_elements_of_stops h hStops
  -- what was read is the elements that were accepted and a part of the placeholder
  have hTiles := (decided_placeholder h.isDecided t₁).tiles.joined_append_rest
  rw [hPlaceholder.2] at hTiles
  obtain ⟨u, hLast⟩ := completed_placeholder h hPlaceholder hTiles
  generalize Token.joined ((placeholder body).run t₁).tokens = y at hTiles hLast
  -- the elements before the placeholder are read again in front of any placeholder
  obtain ⟨z, rfl, hAny⟩ := hElements.exists_append (closed_placeholder h)
  obtain rfl : x = z ++ '\x7b' :: y := by
    refine List.append_cancel_right (hSplit.trans ?_)
    rw [← hTiles]
    simp
  -- the placeholder is completed, and comes after the elements that were read
  refine ⟨u, fun k => ?_⟩
  obtain ⟨e, hLast⟩ := hLast k
  have hText : z ++ '\x7b' :: y ++ (u ++ k) = z ++ '\x7b' :: (y ++ (u ++ k)) := by simp
  have hFront : Elements R b (z ++ '\x7b' :: (y ++ (u ++ k))) m
      ('\x7b' :: (y ++ (u ++ k))) :=
    hAny (.inl rfl) (by simp [isSpecial, isBrace])
  rw [hText]
  exact ⟨_, (hFront.mono h.more).append (.placeholder hLast .nil)⟩

/-- A message in braces that reaches to the end of the text is completed by its
closing brace. -/
theorem completed_open_message {b : Bool} {s : List Char} {m : Message}
    (hElements : Elements R b s m []) :
    ∃ u, ∀ k, ∃ m', Elements R' b (s ++ (u ++ k)) m' ('\x7d' :: k) := by
  obtain ⟨q, hClosing⟩ := hElements.exists_closing (closed_placeholder h) rfl
  refine ⟨q ++ ['\x7d'], fun k => ?_⟩
  obtain ⟨m', hMessage⟩ := hClosing k
  have hText : s ++ (q ++ ['\x7d'] ++ k) = s ++ (q ++ '\x7d' :: k) := by simp
  rw [hText]
  exact ⟨m', hMessage.mono h.more⟩

end

/-! ## Levels of nesting -/

/-- A message in braces is settled by the character after what it read. -/
theorem decided_subMessage (cx : Context) (b : Bool) :
    (subMessage cx b).Decided Exempt := by
  unfold subMessage
  split
  · exact decided_fail _
  · exact (decided_message _).andThen fun _ => (decided_demand _ _ _).andThen fun _ =>
      decided_pure _

/-- What may stand in braces may also stand there under a limit that is one higher. -/
theorem inBraces_succ {levels : Nat} {b : Bool} {s rest : List Char} {m : Message}
    (h : InBraces levels b s m rest) : InBraces (levels + 1) b s m rest := by
  cases levels with
  | zero => exact h.elim
  | succ levels => exact messageAt_succ h

/-- A message in braces that stops is completed, if the messages one level down are. -/
theorem completed_closed {cx : Context} (hDepth : 0 ≤ cx.depth)
    (hTop : cx.isTopLevel = false)
    (hBelow : Completes (subMessage cx) (subMessage cx.widened) (InBraces cx.levelsLeft)
      (InBraces (cx.levelsLeft + 1)))
    {s x t : List Char} {cause : Violation}
    (hStops : (closed (message cx)).Stops s (.violation cause) t)
    (hSplit : x ++ t = s) :
    ∃ u, ∀ k, ∃ m, Elements (InBraces (cx.levelsLeft + 1)) cx.poundIsNumber
      (x ++ (u ++ k)) m ('\x7d' :: k) := by
  rw [closed, stops_bind] at hStops
  rcases hStops with hStops | ⟨m, t₁, hMessage, hStops⟩
  · -- the message stops in a placeholder, so its brace comes after the placeholder
    rw [message_eq, elements, stops_bind] at hStops
    rcases hStops with hStops | ⟨m, t₁, hMessage, hStops⟩
    · obtain ⟨u, hElements⟩ := completed_elements hBelow hStops hSplit
      refine ⟨u ++ ['\x7d'], fun k => ?_⟩
      obtain ⟨m, hMessage⟩ := hElements ('\x7d' :: k)
      rw [List.append_assoc]
      exact ⟨m, hMessage⟩
    · simp [hTop] at hStops
  · -- the text ends in the message
    simp only [stops_bind, stops_demand, accepts_demand, not_stops_pure, and_false,
      exists_false, or_false] at hStops
    obtain ⟨hHead, -, rfl⟩ := hStops
    -- the elements reach to the end of the text, as no brace has stopped them
    obtain ⟨hElements, hEnds, -⟩ := (accepts_message hDepth _ _ _).mp hMessage
    -- there was no closing brace, so the message took the whole text
    obtain rfl : t₁ = [] := by
      cases t₁ with
      | nil => rfl
      | cons c t => simp_all [closesHere]
    rw [List.append_nil] at hSplit
    subst hSplit
    rw [messageAt_eq] at hElements
    exact completed_open_message hBelow hElements

/-- With room for one more level, messages in braces are completed. -/
theorem completes_subMessage {cx : Context} (hDepth : 0 ≤ cx.depth)
    (hLimit : cx.depth ≤ cx.limit) :
    Completes (subMessage cx) (subMessage cx.widened) (InBraces cx.levelsLeft)
      (InBraces (cx.levelsLeft + 1)) := by
  -- by induction on the levels that are left
  induction cx using message_induction with
  | step cx ih =>
    have hProduction : InBraces (cx.levelsLeft + 1) = Elements (InBraces cx.levelsLeft) :=
      messageAt_eq _
    -- what is read below is settled, sealed, and empty before a closing brace
    refine ⟨bracketed_subMessage hDepth, ?_, fun b s m rest => inBraces_succ,
      decided_subMessage cx,
      sealed_subMessage cx, fun b k => ?_, fun b s cause x t hStops hSplit => ?_⟩
    · -- the same message under the higher limit
      rw [← Context.levelsLeft_widened hLimit]
      exact bracketed_subMessage hDepth
    · rw [hProduction]
      exact .nil
    · rw [hProduction]
      unfold subMessage at hStops
      split at hStops
      · -- the message may stand here now, so it is closed at once
        obtain ⟨-, rfl⟩ := stops_reject.mp hStops
        obtain rfl : x = [] := by simpa using hSplit
        exact ⟨['\x7d'], fun k => ⟨[], .nil⟩⟩
      · next hRoom =>
        -- one level further down the bounds hold again
        have hDepth' : 0 ≤ (cx.enter b).depth := by
          simp only [Context.enter]
          omega
        have hLimit' : (cx.enter b).depth ≤ (cx.enter b).limit := by
          simp only [Context.enter, Context.isFull, decide_eq_true_eq] at hRoom ⊢
          omega
        rw [levelsLeft_enter hRoom b]
        exact completed_closed hDepth' (isTopLevel_enter hDepth b)
          (ih hRoom b hDepth' hLimit') hStops
          hSplit

/-! ## Whole messages -/

/-- What a message has read when it stops is completed to the end of a text. -/
theorem exists_accepts_of_stops_message {cx : Context} (hDepth : 0 ≤ cx.depth)
    (hLimit : cx.depth ≤ cx.limit) {s x t : List Char} {cause : Violation}
    (hStops : (message cx).Stops s (.violation cause) t) (hSplit : x ++ t = s) :
    ∃ u m, (message cx.widened).Accepts (x ++ u) m [] := by
  have hBelow := completes_subMessage hDepth hLimit
  -- it is enough to derive a message of the whole text, with one level more
  suffices hElements : ∃ u m,
      Elements (InBraces (cx.levelsLeft + 1)) cx.poundIsNumber (x ++ u) m [] by
    obtain ⟨u, m, hMessage⟩ := hElements
    have hDepth' : 0 ≤ cx.widened.depth := hDepth
    refine ⟨u, m, (accepts_message hDepth' _ _ _).mpr ⟨?_, rfl, fun _ => rfl⟩⟩
    rw [Context.levelsLeft_widened hLimit, messageAt_eq]
    exact hMessage
  rw [message_eq, elements, stops_bind] at hStops
  rcases hStops with hStops | ⟨m, t₁, hMessage, hStops⟩
  · -- the message may end with the placeholder that is completed
    obtain ⟨u, hMessage⟩ := completed_elements hBelow hStops hSplit
    obtain ⟨m, hMessage⟩ := hMessage []
    exact ⟨u ++ [], m, hMessage⟩
  · -- a closing brace too many, so the pattern may as well end in front of it
    simp only [stops_peek_bind, stops_require_bind, not_stops_pure, and_false,
      or_false] at hStops
    obtain ⟨hBrace, -, rfl⟩ := hStops
    obtain ⟨r, rfl⟩ : ∃ r, t₁ = '\x7d' :: r := by
      refine List.head?_eq_some_iff.mp ?_
      simp_all
    -- the elements in front of that brace are a message by themselves
    obtain ⟨y, rfl, hAny⟩ :=
      ((accepts_elements_iff hBelow.reads).mp hMessage).1.exists_append
      (closed_placeholder hBelow)
    obtain rfl : x = y := List.append_cancel_right hSplit
    have hFits : Fits (isSpecial cx.poundIsNumber) ('\x7d' :: r) [] :=
      .inr ⟨⟨_, rfl, by simp [isSpecial, isBrace]⟩, by simp⟩
    exact ⟨[], m, (hAny hFits (by simp)).mono hBelow.more⟩

/-- **What was accepted before an error can be completed.** A pattern that is
rejected has, in place of all that stands from the error on, a text with which it is
read, if messages may nest one level deeper. -/
theorem exists_completion (limit : Nat) (s : String) (e : SyntaxError)
    (hRejected : ((message { limit := limit }).runAt ⟨s, 0⟩).result =
      .error (.rejected e)) :
    ∃ (u : String) (m : Message),
      ((message { limit := limit + 1 }).runAt
        ⟨String.ofList (s.toList.take e.offset) ++ u, 0⟩).result = .ok m := by
  rw [message_runAt] at hRejected
  cases hResult : ((message { limit := limit }).run s.toList).result with
  | ok m =>
    simp [hResult, Except.mapError] at hRejected
  | error fault =>
    simp only [hResult, Except.mapError, Except.error.injEq] at hRejected
    obtain ⟨cause, rfl, rfl⟩ := Failure.ofFault_eq_rejected_iff.mp hRejected
    -- the offset of the error is where the log ends
    have hTiles := (message_tiles { limit := limit } s.toList).joined_append_rest
    rw [SyntaxError.offset_ofViolation]
    -- the text up to there is what was logged
    have hTake : s.toList.take
      (Token.joined ((message { limit := limit }).run s.toList).tokens).length =
        Token.joined ((message { limit := limit }).run s.toList).tokens := by
      conv => lhs; arg 2; rw [← hTiles]
      exact List.take_left
    rw [hTake]
    -- what was read can be completed, and what is completed is accepted under the higher limit
    obtain ⟨u, m, hAccepts⟩ :=
      exists_accepts_of_stops_message (Int.le_refl 0) (Int.natCast_nonneg limit)
      ⟨hResult, rfl⟩ hTiles
    refine ⟨String.ofList u, m, ?_⟩
    rw [message_runAt]
    simp only [String.toList_append, String.toList_ofList]
    show Except.mapError _
      ((message (Context.widened { limit := limit })).run _).result = _
    rw [hAccepts.1]
    rfl

/-- A case one level too deep: its brace has been read, and the pattern goes on from
there. -/
theorem exists_completion_of_tooDeep :
    ((message { limit := 0 }).runAt ⟨"\x7bn, plural, one \x7b#\x7d\x7d", 0⟩).result =
        .error (.rejected (.ofViolation (.tooDeep 0)
          ⟨"\x7bn, plural, one \x7b#\x7d\x7d", 17⟩)) ∧
      ∃ (u : String) (m : Message), ((message { limit := 0 + 1 }).runAt
        ⟨String.ofList ("\x7bn, plural, one \x7b#\x7d\x7d".toList.take 17) ++ u, 0⟩).result = .ok m :=
  ⟨by decide +kernel, exists_completion 0 "\x7bn, plural, one \x7b#\x7d\x7d"
    (.ofViolation (.tooDeep 0) ⟨"\x7bn, plural, one \x7b#\x7d\x7d", 17⟩)
    (by decide +kernel)⟩

end Grammar

end MessagePattern
