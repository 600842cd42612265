import MessagePattern.Grammar

/-!
# How readers are taken apart

A reader built from others is understood by what its parts do. `Accepts` and `Stops`
are the two ways in which a run can end, and each way of building readers says how
they come about. The two recursions, over the members of a list and over the levels
of nesting, are unfolded here once.

* `Reader.Accepts`, `Reader.Stops` — a run that gives a value, and one that ends in
  a fault;
* `Reader.accepts_bind`, `Reader.stops_bind` — both for one reader after another;
* `Reader.untilClose_run`, `Reader.untilClose_induction` — a list is its first
  member and the rest;
* `Grammar.thirdPart` — what the third part of a placeholder is read as;
* `Grammar.message_induction`, `Grammar.message_of_parts` — a message is made of
  messages one level down.
-/

namespace MessagePattern

namespace Reader

variable {α β : Type}

/-! ## Runs -/

/-- The reader gives a value on the text and leaves a rest. -/
def Accepts (p : Reader α) (s : List Char) (a : α) (rest : List Char) : Prop :=
  (p.run s).result = .ok a ∧ (p.run s).rest = rest

/-- The reader ends in a fault on the text, in front of a rest. -/
def Stops (p : Reader α) (s : List Char) (fault : Fault) (rest : List Char) : Prop :=
  (p.run s).result = .error fault ∧ (p.run s).rest = rest

/-- After a reader that gives something, the next one reads on from the rest, and the logs follow one
another. -/
theorem run_bind_of_ok {p : Reader α} {next : α → Reader β} {s : List Char} {a : α}
    (h : (p.run s).result = .ok a) :
    (p >>= next).run s =
      ⟨((next a).run (p.run s).rest).result,
        (p.run s).tokens ++ ((next a).run (p.run s).rest).tokens,
        ((next a).run (p.run s).rest).rest⟩ := by
  rw [run_bind, Reply.andThen, h]

/-- A fault ends the run of two readers: the second is not begun. -/
theorem run_bind_of_error {p : Reader α} {next : α → Reader β} {s : List Char}
    {fault : Fault} (h : (p.run s).result = .error fault) :
    (p >>= next).run s = ⟨.error fault, (p.run s).tokens, (p.run s).rest⟩ := by
  rw [run_bind, Reply.andThen, h]

/-- Two readers one after the other accept what both accept, each in its part of the text. -/
theorem accepts_bind {p : Reader α} {next : α → Reader β} {s rest : List Char} {b : β} :
    (p >>= next).Accepts s b rest ↔
      ∃ a t, p.Accepts s a t ∧ (next a).Accepts t b rest := by
  -- by the result of the first reader: a fault ends the run
  cases h : (p.run s).result with
  | ok a =>
    rw [Accepts, run_bind_of_ok h]
    refine ⟨?_, ?_⟩
    · intro hNext
      exact ⟨a, _, ⟨h, rfl⟩, hNext⟩
    · rintro ⟨a', t, ⟨ha, rfl⟩, hNext⟩
      obtain rfl : a = a' := by simpa [h] using ha
      exact hNext
  | error fault =>
    rw [Accepts, run_bind_of_error h]
    refine ⟨?_, ?_⟩
    · rintro ⟨hOk, -⟩
      exact absurd hOk (by simp)
    · rintro ⟨a', t, ⟨ha, -⟩, -⟩
      exact absurd (h.symm.trans ha) (by simp)

/-- Two readers one after the other stop where the first does, or where the second does after what the
first accepted. -/
theorem stops_bind {p : Reader α} {next : α → Reader β} {s rest : List Char}
    {fault : Fault} :
    (p >>= next).Stops s fault rest ↔
      p.Stops s fault rest ∨ ∃ a t, p.Accepts s a t ∧ (next a).Stops t fault rest := by
  cases h : (p.run s).result with
  | ok a =>
    -- the first reader gives something, so only the second can stop
    rw [Stops, run_bind_of_ok h]
    refine ⟨?_, ?_⟩
    · intro hNext
      exact .inr ⟨a, _, ⟨h, rfl⟩, hNext⟩
    · rintro (⟨hErr, -⟩ | ⟨a', t, ⟨ha, rfl⟩, hNext⟩)
      · exact absurd (h.symm.trans hErr) (by simp)
      · obtain rfl : a = a' := by simpa [h] using ha
        exact hNext
  | error found =>
    rw [Stops, run_bind_of_error h]
    refine ⟨?_, ?_⟩
    · rintro ⟨hErr, hRest⟩
      obtain rfl : found = fault := by simpa using hErr
      exact .inl ⟨h, hRest⟩
    · rintro (⟨hErr, hRest⟩ | ⟨a', t, ⟨ha, -⟩, -⟩)
      · obtain rfl : found = fault := by simpa [h] using hErr
        exact ⟨rfl, hRest⟩
      · exact absurd (h.symm.trans ha) (by simp)

/-- It does not matter how readers that follow one another are grouped. -/
theorem stops_bind_assoc {γ : Type} {p : Reader α} {q : α → Reader β}
    {r : β → Reader γ} {s rest : List Char} {fault : Fault} :
    ((p >>= q) >>= r).Stops s fault rest ↔
      (p >>= fun a => q a >>= r).Stops s fault rest := by
  simp only [stops_bind, accepts_bind]
  refine ⟨?_, ?_⟩
  · rintro ((hFirst | ⟨a, t, hA, hSecond⟩) | ⟨b, t, ⟨a, t₁, hA, hB⟩, hThird⟩)
    · exact .inl hFirst
    · exact .inr ⟨a, t, hA, .inl hSecond⟩
    · exact .inr ⟨a, t₁, hA, .inr ⟨b, t, hB, hThird⟩⟩
  · rintro (hFirst | ⟨a, t₁, hA, hSecond | ⟨b, t, hB, hThird⟩⟩)
    · exact .inl (.inl hFirst)
    · exact .inl (.inr ⟨a, t₁, hA, hSecond⟩)
    · exact .inr ⟨b, t, ⟨a, t₁, hA, hB⟩, hThird⟩

/-- A reader that only gives something leaves the text as it is. -/
@[simp] theorem accepts_pure {a b : α} {s rest : List Char} :
    (pure a : Reader α).Accepts s b rest ↔ a = b ∧ s = rest := by
  simp [Accepts]

@[simp] theorem not_stops_pure {a : α} {s rest : List Char} {fault : Fault} :
    ¬(pure a : Reader α).Stops s fault rest := by
  simp [Stops]

@[simp] theorem not_accepts_reject {cause : Violation} {a : α} {s rest : List Char} :
    ¬(reject cause : Reader α).Accepts s a rest := by
  simp [Accepts, reject]

/-- Raising a violation stops where it stands. -/
@[simp] theorem stops_reject {cause : Violation} {s rest : List Char} {fault : Fault} :
    (reject cause : Reader α).Stops s fault rest ↔
      .violation cause = fault ∧ s = rest := by
  simp [Stops, reject]

/-- A checked node is given where it is not refused, and nothing is read for it. -/
@[simp] theorem accepts_checked {node : Except NodeError α} {a : α} {s rest : List Char} :
    (checked node).Accepts s a rest ↔ node = .ok a ∧ s = rest := by
  cases node <;> simp [Accepts, checked]

/-- A checked node stops a reader only by being refused. -/
@[simp] theorem stops_checked {node : Except NodeError α} {s rest : List Char}
    {fault : Fault} :
    (checked node).Stops s fault rest ↔ (∃ e, node = .error e ∧ .invalidNode e = fault) ∧
      s = rest := by
  cases node <;> simp [Stops, checked]

/-! ### Looking and checking

What only looks at the text, or only checks a condition, takes nothing, so the next
reader runs on the same text. -/

/-- A look at the text takes nothing. -/
@[simp] theorem accepts_lookAhead_bind {next : List Char → Reader β}
    {s rest : List Char} {b : β} :
    (lookAhead >>= next).Accepts s b rest ↔ (next s).Accepts s b rest := by
  simp [Accepts, Reply.andThen]

/-- Looking at the text leaves the place as it is. -/
@[simp] theorem stops_lookAhead_bind {next : List Char → Reader β}
    {s rest : List Char} {fault : Fault} :
    (lookAhead >>= next).Stops s fault rest ↔ (next s).Stops s fault rest := by
  simp [Stops, Reply.andThen]

/-- A look at the next character takes nothing. -/
theorem run_peek_bind {next : Option Char → Reader β} (s : List Char) :
    (peek >>= next).run s = (next s.head?).run s := by
  simp [Reply.andThen]

/-- Looking at the next character tells what it is, and takes nothing. -/
@[simp] theorem accepts_peek_bind {next : Option Char → Reader β} {s rest : List Char}
    {b : β} : (peek >>= next).Accepts s b rest ↔ (next s.head?).Accepts s b rest := by
  rw [Accepts, Accepts, run_peek_bind]

/-- The same for a reader that stops afterwards. -/
@[simp] theorem stops_peek_bind {next : Option Char → Reader β} {s rest : List Char}
    {fault : Fault} :
    (peek >>= next).Stops s fault rest ↔ (next s.head?).Stops s fault rest := by
  rw [Stops, Stops, run_peek_bind]

/-- A condition is passed if it holds. -/
@[simp] theorem accepts_require {condition : Bool} {cause : Violation}
    {s rest : List Char} {u : Unit} :
    (require condition cause).Accepts s u rest ↔ condition = true ∧ s = rest := by
  cases condition <;> simp [require]

/-- A condition stops where it is asked for, if it does not hold. -/
@[simp] theorem stops_require {condition : Bool} {cause : Violation} {s rest : List Char}
    {fault : Fault} :
    (require condition cause).Stops s fault rest ↔
      condition = false ∧ .violation cause = fault ∧ s = rest := by
  cases condition <;> simp [require]

/-- What is required holds before the reader goes on. -/
@[simp] theorem accepts_require_bind {condition : Bool} {cause : Violation}
    {next : Unit → Reader β} {s rest : List Char} {b : β} :
    (require condition cause >>= next).Accepts s b rest ↔
      condition = true ∧ (next ()).Accepts s b rest := by
  rw [accepts_bind]
  refine ⟨?_, ?_⟩
  · rintro ⟨u, t, hRequire, hNext⟩
    obtain ⟨hCondition, rfl⟩ := accepts_require.mp hRequire
    exact ⟨hCondition, hNext⟩
  · rintro ⟨hCondition, hNext⟩
    exact ⟨(), s, accepts_require.mpr ⟨hCondition, rfl⟩, hNext⟩

/-- A reader stops at what is required if it does not hold, and else where it would stop without. -/
@[simp] theorem stops_require_bind {condition : Bool} {cause : Violation}
    {next : Unit → Reader β} {s rest : List Char} {fault : Fault} :
    (require condition cause >>= next).Stops s fault rest ↔
      (condition = false ∧ .violation cause = fault ∧ s = rest) ∨
        condition = true ∧ (next ()).Stops s fault rest := by
  rw [stops_bind, stops_require]
  refine or_congr_right ⟨?_, ?_⟩
  · rintro ⟨u, t, hRequire, hNext⟩
    obtain ⟨hCondition, rfl⟩ := accepts_require.mp hRequire
    exact ⟨hCondition, hNext⟩
  · rintro ⟨hCondition, hNext⟩
    exact ⟨(), s, accepts_require.mpr ⟨hCondition, rfl⟩, hNext⟩

/-! ### Single characters -/

/-- One character is taken, whichever it is. -/
@[simp] theorem accepts_take {kind : Token.Kind} {s rest : List Char} {u : Unit} :
    (take kind).Accepts s u rest ↔ ∃ c, s = c :: rest := by
  cases s with
  | nil => simp [take, Accepts, Reply.andThen]
  | cons c t => simp [take, Accepts, Reply.andThen, lexeme]

/-- At the end of the text there is nothing to take. -/
@[simp] theorem stops_take {kind : Token.Kind} {s rest : List Char} {fault : Fault} :
    (take kind).Stops s fault rest ↔ .endOfSource = fault ∧ s = [] ∧ rest = [] := by
  cases s with
  | nil => simp [take, Stops, Reply.andThen, eq_comm]
  | cons c t => simp [take, Stops, Reply.andThen, lexeme]

/-- A token is taken where a character stands, and the reader goes on behind it. -/
@[simp] theorem accepts_take_bind {kind : Token.Kind} {next : Unit → Reader β} {c : Char}
    {t rest : List Char} {b : β} :
    (take kind >>= next).Accepts (c :: t) b rest ↔ (next ()).Accepts t b rest := by
  simp only [accepts_bind, accepts_take]
  refine ⟨?_, ?_⟩
  · rintro ⟨⟨⟩, t', ⟨c', hTake⟩, hNext⟩
    obtain ⟨-, rfl⟩ := List.cons.inj hTake
    exact hNext
  · intro hNext
    exact ⟨(), t, ⟨c, rfl⟩, hNext⟩

/-- The same for a reader that stops afterwards. -/
@[simp] theorem stops_take_bind {kind : Token.Kind} {next : Unit → Reader β} {c : Char}
    {t rest : List Char} {fault : Fault} :
    (take kind >>= next).Stops (c :: t) fault rest ↔ (next ()).Stops t fault rest := by
  simp only [stops_bind, stops_take, accepts_take]
  refine ⟨?_, ?_⟩
  · rintro (⟨-, hNil, -⟩ | ⟨⟨⟩, t', ⟨c', hTake⟩, hNext⟩)
    · exact absurd hNil (by simp)
    · obtain ⟨-, rfl⟩ := List.cons.inj hTake
      exact hNext
  · intro hNext
    exact .inr ⟨(), t, ⟨c, rfl⟩, hNext⟩

/-- A demanded character is the next one. -/
@[simp] theorem accepts_demand {c : Char} {kind : Token.Kind} {what : Expectation}
    {s rest : List Char} {u : Unit} :
    (demand c kind what).Accepts s u rest ↔ s = c :: rest := by
  cases s with
  | nil => simp [demand]
  | cons d t =>
    simp only [demand, accepts_peek_bind, accepts_require_bind, accepts_take,
      List.head?_cons]
    simp

/-- A reader stops in front of anything but the demanded character. -/
@[simp] theorem stops_demand {c : Char} {kind : Token.Kind} {what : Expectation}
    {s rest : List Char} {fault : Fault} :
    (demand c kind what).Stops s fault rest ↔
      s.head? ≠ some c ∧ .violation (.expected what) = fault ∧ s = rest := by
  cases s with
  | nil => simp [demand]
  | cons d t => simp [demand]

/-! ## Lists of members -/

/-- A list goes on only where there is something to read. -/
theorem exists_cons_of_goesOn {s : List Char} (hGoesOn : closesHere s = false) :
    ∃ c t, s = c :: t := by
  cases s with
  | nil => exact absurd hGoesOn (by decide)
  | cons c t => exact ⟨c, t, rfl⟩

/-- A list that does not end here is its first member and the list after it. -/
theorem untilClose_run (item : Item α) (s : List Char) :
    (untilClose item).run s = if closesHere s then ⟨.ok [], [], s⟩ else
      (item.toReader >>= fun a => untilClose item >>= fun l => pure (a :: l)).run s := by
  show untilCloseRun item s = _
  rw [untilCloseRun]
  by_cases hEnds : closesHere s = true
  · rw [dif_pos hEnds, if_pos hEnds]
  · rw [dif_neg hEnds, if_neg hEnds, run_bind]
    -- by the reply of the first member
    split
    · next fault tokens rest hItem => rw [hItem, Reply.andThen]
    · next a tokens rest hItem =>
      conv => rhs; rw [hItem, Reply.andThen]
      cases hMore : (untilCloseRun item rest).result <;>
        simp [Reply.andThen, hMore, Except.map, untilClose]

/-- What holds of a text as soon as it holds of the rest after one more member,
holds of every text. -/
theorem untilClose_induction {motive : List Char → Prop} (item : Item α)
    (step : ∀ s, (∀ a, closesHere s = false → (item.run s).result = .ok a →
      motive (item.run s).rest) → motive s) (s : List Char) : motive s := by
  apply step
  intro a hGoesOn hOk
  have : (item.run s).rest.length < s.length := item.length_rest_lt s a hGoesOn hOk
  exact untilClose_induction item step (item.run s).rest
termination_by s.length

/-- What holds of replies that take nothing, and of the reply of two readers one after the other where
it holds of the replies of both, holds of the reply of a list where it holds of those of its members. -/
theorem untilClose_preserves {P : ∀ {γ : Type}, Reply γ → List Char → Prop}
    (hPure : ∀ {γ : Type} (c : γ) (s : List Char), P ((pure c : Reader γ).run s) s)
    (hBind : ∀ {γ δ : Type} {p : Reader γ} {next : γ → Reader δ} {s : List Char}, P (p.run s) s →
      (∀ c t, p.Accepts s c t → P ((next c).run t) t) → P ((p >>= next).run s) s)
    {item : Item α} (hItem : ∀ s, P (item.toReader.run s) s) (s : List Char) :
    P ((untilClose item).run s) s := by
  -- by induction on the members that are still to come
  induction s using untilClose_induction item with
  | step s ih =>
    rw [untilClose_run]
    by_cases hEnds : closesHere s = true
    · rw [if_pos hEnds]
      exact hPure [] s
    · rw [if_neg hEnds]
      refine hBind (hItem s) fun a t hFirst => ?_
      obtain ⟨hOk, rfl⟩ := hFirst
      exact hBind (ih a (by simpa using hEnds) hOk) fun l t _ => hPure (a :: l) t

/-- A list ends at once where a brace closes or the text ends; elsewhere it has a first member and a
list after it. -/
theorem accepts_untilClose {item : Item α} {s rest : List Char} {l : List α} :
    (untilClose item).Accepts s l rest ↔ (closesHere s = true ∧ l = [] ∧ s = rest) ∨
      closesHere s = false ∧ ∃ a t l', item.Accepts s a t ∧
        (untilClose item).Accepts t l' rest ∧ l = a :: l' := by
  rw [Accepts, untilClose_run]
  cases hEnds : closesHere s with
  | true => simp [eq_comm]
  | false =>
    have hBind : (item.toReader >>= fun a => untilClose item >>= fun l =>
        pure (a :: l)).Accepts
        s l rest ↔ _ := accepts_bind
    rw [Accepts] at hBind
    simp only [Bool.false_eq_true, if_false, false_and, true_and, false_or]
    rw [hBind]
    -- the first member, and then the members after it
    refine exists_congr fun a => exists_congr fun t => ?_
    rw [accepts_bind, ← exists_and_left]
    refine exists_congr fun l' => ?_
    simp only [accepts_pure]
    refine ⟨?_, ?_⟩
    · rintro ⟨hItem, t', hMore, hList, rfl⟩
      exact ⟨hItem, hMore, hList.symm⟩
    · rintro ⟨hItem, hMore, hList⟩
      exact ⟨hItem, rest, hMore, hList.symm, rfl⟩

/-- A list ends only at a closing brace or at the end of the text. -/
theorem closesHere_of_accepts {item : Item α} {s rest : List Char} {l : List α}
    (h : (untilClose item).Accepts s l rest) : closesHere rest = true := by
  -- by induction on the members; the list that is left ends where the whole list does
  induction s using untilClose_induction item generalizing l with
  | step s ih =>
    rcases accepts_untilClose.mp h with ⟨hEnds, -, rfl⟩ |
      ⟨hGoesOn, a, t, l', hItem, hMore, -⟩
    · exact hEnds
    · obtain rfl := hItem.2
      exact ih a hGoesOn hItem.1 hMore

/-- A list stops in one of its members. -/
theorem stops_untilClose {item : Item α} {s rest : List Char} {fault : Fault} :
    (untilClose item).Stops s fault rest ↔
      closesHere s = false ∧ (item.Stops s fault rest ∨
        ∃ a t, item.Accepts s a t ∧ (untilClose item).Stops t fault rest) := by
  rw [Stops, untilClose_run]
  cases hEnds : closesHere s with
  | true => simp
  | false =>
    have hBind : (item.toReader >>= fun a => untilClose item >>= fun l =>
        pure (a :: l)).Stops
        s fault rest ↔ _ := stops_bind
    rw [Stops] at hBind
    simp only [Bool.false_eq_true, if_false, true_and]
    rw [hBind]
    simp [stops_bind]

end Reader

namespace Grammar

open Reader

/-! ## Messages

A message is the list of its elements. Where it ends, the top level insists on the
end of the text. -/

/-- The elements of a message are a list, and at the top level they come to the end of the text. -/
theorem accepts_elements {body : Body} {cx : Context} {s rest : List Char} {m : Message} :
    (elements body cx).Accepts s m rest ↔
      (untilClose (elementItem body cx.poundIsNumber)).Accepts s m rest ∧
        (cx.isTopLevel = true → rest = []) := by
  rw [elements, accepts_bind]
  simp only [accepts_peek_bind, accepts_require_bind, accepts_pure]
  refine ⟨?_, ?_⟩
  · -- a message without a brace in front of the rest
    rintro ⟨l, t, hList, hTop, rfl, rfl⟩
    refine ⟨hList, fun hIsTop => ?_⟩
    -- where the list ended no brace stands, so the text ends there
    have hEnds := closesHere_of_accepts hList
    cases t with
    | nil => rfl
    | cons c t => simp_all [closesHere]
  · rintro ⟨hList, hTop⟩
    refine ⟨m, rest, hList, ?_, rfl, rfl⟩
    cases hIsTop : cx.isTopLevel with
    | true => simp [hTop hIsTop]
    | false => simp

/-- A message that is read at the top level is read to the end of the text. -/
theorem rest_eq_nil_of_accepts_message {cx : Context} {s rest : List Char} {m : Message}
    (hTop : cx.isTopLevel = true) (h : (message cx).Accepts s m rest) : rest = [] := by
  rw [message_eq] at h
  exact (accepts_elements.mp h).2 hTop

/-! ## Third parts of placeholders

The third part of a placeholder is read by a scan of the style that may stand there. -/

/-- Reads what another reader reads, and the closing brace of the placeholder after
it. -/
def andClose (p : Reader Element) : Reader Element := do
  let element ← p
  close
  return element

/-- Reads a style. -/
def styleOnly (id type : String) (scan : StyleScan) : Reader Element := do
  require (!scan.value.isEmpty) (.expected .styleName)
  let style ← commitStyle scan
  checked (Element.typed? id type (some style))

/-- Reads cases of one's own. -/
def ownCases (body : Body) (id type : String) : Reader Element := do
  let cases ← caseList body type false false
  checked (Element.select? id type cases)

/-- Reads a style or cases of one's own, by the scan of a style. -/
def thirdPart (body : Body) (id type : String) (scan : StyleScan) : Reader Element :=
  if scan.stopsAtOpenBrace && !simpleTypes.contains type then ownCases body id type
  else styleOnly id type scan

/-- The third part of a placeholder is read by what a scan of it finds. -/
theorem run_styleArgument (body : Body) (id type : String) (s : List Char) :
    (styleArgument body id type).run s =
      (thirdPart body id type (StyleScan.ofSource s)).run s := by
  rw [styleArgument, thirdPart]
  simp only [styleScan, run_bind, run_lookAhead, run_pure, Reply.andThen]
  split <;> rfl

theorem run_andClose_styleArgument (body : Body) (id type : String) (s : List Char) :
    (andClose (styleArgument body id type)).run s =
      (andClose (thirdPart body id type (StyleScan.ofSource s))).run s := by
  rw [andClose, andClose, run_bind, run_bind, run_styleArgument]

/-! ## Levels of nesting -/

/-- What holds of a context as soon as it holds one level down, holds of every
context. -/
theorem message_induction {motive : Context → Prop}
    (step : ∀ cx, (¬cx.isFull = true → ∀ poundIsNumber, motive (cx.enter poundIsNumber)) →
      motive cx)
    (cx : Context) : motive cx := by
  apply step
  intro hRoom poundIsNumber
  have := Context.levelsLeft_enter_lt hRoom poundIsNumber
  exact message_induction step (cx.enter poundIsNumber)
termination_by cx.levelsLeft

/-- What the parts of a message hand on to the message, whatever its sub-messages
are read by, holds of every message. -/
theorem message_of_parts {P : Reader Message → Prop}
    (full : ∀ limit, P (reject (.tooDeep limit)))
    (inBraces : ∀ body, P body → P (closed body))
    (parts : ∀ body cx, (∀ poundIsNumber, P (body poundIsNumber)) → P (elements body cx))
    (cx : Context) : P (message cx) := by
  induction cx using message_induction with
  -- by induction on the levels that are left
  | step cx ih =>
    rw [message_eq]
    apply parts
    intro poundIsNumber
    unfold subMessage
    split
    · exact full _
    · next hRoom => exact inBraces _ (ih hRoom poundIsNumber)

end Grammar

end MessagePattern
