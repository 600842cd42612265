import MessagePattern.Proofs.Locality

/-!
# Placeholders do not look past their closing brace

A reader that ends with a closing brace that the grammar calls for gives its value
whatever comes after that brace, and logs the same. Placeholders end so, and so do
messages in braces.

* `Reader.Sealed` — what is accepted ends with a closing brace, and is accepted whatever
  follows;
* `Reader.DecidedAt.bind_sealed` — a decided reader and then a sealed one are sealed;
* `Grammar.sealed_placeholder`, `Grammar.sealed_subMessage` — the readers that end
  with a brace.
-/

namespace MessagePattern

namespace Reader

variable {α β : Type}

/-- A log that ends with a closing brace. -/
def EndsClosed (log : List Token) : Prop :=
  ∃ before text, log = before ++ [⟨.closeBrace, text⟩]

/-- A log ends as its last part does. -/
theorem EndsClosed.append_left {log : List Token} (h : EndsClosed log)
    (before : List Token) : EndsClosed (before ++ log) := by
  obtain ⟨front, text, rfl⟩ := h
  exact ⟨before ++ front, text, by rw [List.append_assoc]⟩

/-- What is accepted from this text ends with a closing brace, and is accepted and
logged alike whatever follows. -/
def SealedAt (p : Reader α) (s : List Char) : Prop :=
  ∀ a x t, p.Accepts s a t → x ++ t = s → x ≠ [] ∧ EndsClosed (p.run s).tokens ∧
    ∀ t', p.run (x ++ t') = ⟨.ok a, (p.run s).tokens, t'⟩

/-- What is accepted ends with a closing brace, and is accepted and logged alike
whatever follows. -/
def Sealed (p : Reader α) : Prop := ∀ s, p.SealedAt s

/-- What a decided reader accepts it accepts before any text that begins as the rest
did, and logs alike. -/
theorem DecidedAt.run_of_accepts {p : Reader α} {s x t t' : List Char} {a : α}
    (h : p.DecidedAt Exempt s) (hAccepts : p.Accepts s a t) (hSplit : x ++ t = s)
    (hHead : t'.head? = t.head?) : p.run (x ++ t') = ⟨.ok a, (p.run s).tokens, t'⟩ := by
  obtain ⟨hOk, rfl⟩ := hAccepts
  have hSame := h.keeps (by simp [hOk]) t' hHead
  rwa [joined_eq_of_tiles h.tiles hSplit, hOk] at hSame

/-- What the second of two readers reads comes after what the first one reads. -/
theorem exists_split_of_accepts {p : Reader α} {q : Reader β} {s x t t₁ : List Char}
    {a : α} (h : p.DecidedAt Exempt s) (hFirst : p.Accepts s a t₁)
    (hSecond : (q.run t₁).rest = t) (hSplit : x ++ t = s) :
    ∃ x₁ x₂, x = x₁ ++ x₂ ∧ x₁ ++ t₁ = s ∧ x₂ ++ t = t₁ := by
  obtain ⟨-, rfl⟩ := hFirst
  subst hSecond
  have hTiles := h.tiles.joined_append_rest
  -- both rests are ends of the text, and the second one is not longer
  obtain ⟨x₂, hRest⟩ :=
    List.suffix_of_suffix_length_le ⟨x, hSplit⟩ ⟨_, hTiles⟩ (q.length_rest_le _)
  refine ⟨Token.joined (p.run s).tokens, x₂, ?_, hTiles, hRest⟩
  -- what was taken is the first reader's log and the rest of it
  have hJoined :
      (Token.joined (p.run s).tokens ++ x₂) ++ (q.run (p.run s).rest).rest = s := by
    rw [List.append_assoc, hRest]
    exact hTiles
  exact List.append_cancel_right (hSplit.trans hJoined.symm)

/-- What a sealed reader accepts is read off the front of the text. -/
theorem exists_append_of_accepts {p : Reader α} {s t : List Char} {a : α}
    (h : p.DecidedAt Exempt s) (hSealed : p.SealedAt s) (hAccepts : p.Accepts s a t) :
    ∃ x, s = x ++ t ∧ ∀ t', p.Accepts (x ++ t') a t' := by
  have hTiles := h.tiles.joined_append_rest
  rw [hAccepts.2] at hTiles
  obtain ⟨-, -, hAny⟩ := hSealed a _ t hAccepts hTiles
  exact ⟨_, hTiles.symm, fun t' => by rw [Accepts, hAny t']; exact ⟨rfl, rfl⟩⟩

/-- A sequence is sealed by its last reader, if the first one is settled by the next character: the last
reader takes at least one, and so the first one sees the same text whatever comes after. -/
theorem DecidedAt.bind_sealed {p : Reader α} {next : α → Reader β} {s : List Char}
    (hFirst : p.DecidedAt Exempt s)
    (hNext : ∀ a t, p.Accepts s a t → (next a).SealedAt t) :
    (p >>= next).SealedAt s := by
  intro b x t hAccepts hSplit
  obtain ⟨a, t₁, hA, hB⟩ := accepts_bind.mp hAccepts
  obtain ⟨x₁, x₂, rfl, hSplit₁, hSplit₂⟩ := exists_split_of_accepts hFirst hA hB.2 hSplit
  obtain ⟨hSome, hEnds, hAny⟩ := hNext a t₁ hA b x₂ t hB hSplit₂
  have hLog : ((p >>= next).run s).tokens =
      (p.run s).tokens ++ ((next a).run t₁).tokens := by
    rw [run_bind_of_ok hA.1, hA.2]
  rw [hLog]
  refine ⟨fun hNil => hSome (List.append_eq_nil_iff.mp hNil).2,
    hEnds.append_left _, fun t' => ?_⟩
  -- something is read after the first reader, so the next character is the same for it
  have hHead : (x₂ ++ t').head? = t₁.head? := by
    rw [← hSplit₂]
    cases x₂ with
    | nil => exact absurd rfl hSome
    | cons c y => rfl
  have hSame := hFirst.run_of_accepts hA hSplit₁ hHead
  rw [List.append_assoc, run_bind_of_ok (by rw [hSame]), hSame]
  simp only
  rw [hAny t']

/-- A reader that takes nothing and does not look. -/
def Idle (p : Reader α) : Prop :=
  ∀ s a t, p.Accepts s a t → ∀ s', p.run s' = ⟨.ok a, [], s'⟩

/-- Giving a value reads nothing. -/
theorem idle_pure (a : α) : (pure a : Reader α).Idle := by
  intro s b t hAccepts s'
  obtain ⟨rfl, -⟩ := accepts_pure.mp hAccepts
  rfl

/-- Checking a node reads nothing. -/
theorem idle_checked (node : Except NodeError α) : (checked node).Idle := by
  intro s a t hAccepts s'
  obtain ⟨rfl, -⟩ := accepts_checked.mp hAccepts
  rfl

/-- What reads nothing may follow a sealed reader. -/
theorem SealedAt.bind_idle {p : Reader α} {next : α → Reader β} {s : List Char}
    (h : p.SealedAt s) (hNext : ∀ a, (next a).Idle) : (p >>= next).SealedAt s := by
  intro b x t hAccepts hSplit
  obtain ⟨a, t₁, hA, hB⟩ := accepts_bind.mp hAccepts
  -- the second reader leaves the text as the first one left it
  have hAny := hNext a t₁ b t hB
  obtain rfl : t₁ = t := by
    have hRest := hB.2
    rwa [hAny t₁] at hRest
  -- so the first reader tells what was read, and the log is its own
  obtain ⟨hSome, hEnds, hRead⟩ := h a x t₁ hA hSplit
  have hLog : ((p >>= next).run s).tokens = (p.run s).tokens := by
    rw [run_bind_of_ok hA.1, hAny]
    exact List.append_nil _
  rw [hLog]
  refine ⟨hSome, hEnds, fun t' => ?_⟩
  rw [run_bind_of_ok (by rw [hRead t']), hRead t', hAny]
  simp only [List.append_nil]

/-- Taking a closing brace seals, since the brace is the last thing that is looked at. -/
theorem sealed_take : (take .closeBrace).Sealed := by
  intro s a x t hAccepts hSplit
  obtain ⟨c, rfl⟩ := accepts_take.mp hAccepts
  obtain rfl : x = [c] := List.append_cancel_right hSplit
  rw [run_take_cons]
  exact ⟨by simp, ⟨[], _, rfl⟩, run_take_cons .closeBrace c⟩

/-- A demanded character that is there is taken, whatever follows it. -/
theorem run_demand_cons (c : Char) (kind : Token.Kind) (what : Expectation)
    (t : List Char) :
    (demand c kind what).run (c :: t) = ⟨.ok (), [⟨kind, String.ofList [c]⟩], t⟩ := by
  simp [demand, require, Reply.andThen, run_take_cons]

/-- A demanded closing brace seals. -/
theorem sealed_demand (what : Expectation) :
    (demand '\x7d' .closeBrace what).Sealed := by
  intro s a x t hAccepts hSplit
  obtain rfl := accepts_demand.mp hAccepts
  obtain rfl : x = ['\x7d'] := List.append_cancel_right hSplit
  rw [run_demand_cons]
  exact ⟨by simp, ⟨[], _, rfl⟩, run_demand_cons _ _ _⟩

end Reader

namespace Grammar

open Reader Declared

/-- A message in braces is sealed by its own closing brace. -/
theorem sealed_closed {body : Reader Message} (hBody : body.Decided Exempt) :
    (closed body).Sealed :=
  fun s => (hBody s).bind_sealed fun _ t _ => (sealed_demand _ t).bind_idle fun _ =>
    idle_pure _

/-- A message in braces is read whatever comes after its closing brace. -/
theorem sealed_subMessage (cx : Context) (poundIsNumber : Bool) :
    (subMessage cx poundIsNumber).Sealed := by
  unfold subMessage
  split
  · exact fun s a x t hAccepts => absurd hAccepts not_accepts_reject
  · exact sealed_closed (decided_message _)

/-- A settled reader is sealed by the closing brace after it. -/
theorem sealed_andClose {p : Reader Element} {s : List Char} (h : p.DecidedAt Exempt s) :
    (andClose p).SealedAt s :=
  h.bind_sealed fun e t _ => SealedAt.bind_idle
    ((decided_space t).bind_sealed fun _ t _ => sealed_demand _ t)
    fun _ => idle_pure e

/-- After a style that is read there are blanks, and the closing brace. -/
theorem blanks_of_accepts_styleOnly {id type : String} {scan : StyleScan} {s t : List Char}
    {e : Element} (h : (andClose (styleOnly id type scan)).Accepts s e t) :
    Blanks (s.drop scan.source.length) ('\x7d' :: t) := by
  -- what was accepted is taken apart: the style, the blanks after it, and the brace
  obtain ⟨e', u, hStyle, hClose⟩ := accepts_bind.mp h
  obtain ⟨-, hCommit⟩ := accepts_require_bind.mp hStyle
  obtain ⟨style, v, hRead, hNode⟩ := accepts_bind.mp hCommit
  obtain ⟨-, rfl⟩ := accepts_commitStyle.mp hRead
  obtain ⟨-, rfl⟩ := accepts_checked.mp hNode
  obtain ⟨⟨⟩, w, hBrace, hPure⟩ := accepts_bind.mp hClose
  obtain ⟨-, rfl⟩ := accepts_pure.mp hPure
  obtain ⟨⟨⟩, w', hSpace, hDemand⟩ := accepts_bind.mp hBrace
  obtain rfl := accepts_demand.mp hDemand
  exact accepts_space.mp hSpace

/-- A style that is read was ended by the closing brace of its placeholder. -/
theorem stop_eq_of_accepts_styleOnly {id type : String} {s t : List Char} {e : Element}
    (h : (andClose (styleOnly id type (StyleScan.ofSource s))).Accepts s e t) :
    (StyleScan.ofSource s).stop = '\x7d' :: t := by
  rw [blanks_iff.mp (blanks_stop s), blanks_iff.mp (blanks_of_accepts_styleOnly h)]

section
variable {body : Body} (hBody : ∀ poundIsNumber, (body poundIsNumber).Decided Exempt)
include hBody

/-- A style or a list of own cases is sealed by the brace that closes its placeholder. The scan that
tells the two apart looks far ahead, but never past a character that has been read when the placeholder
is accepted: the first case opens with the brace at which the scan stops, and after a style that brace
is the closing one. -/
theorem sealed_styleArgument {id type : String} {s : List Char} :
    (andClose (styleArgument body id type)).SealedAt s := by
  intro e x t hAccepts hSplit
  have hRun := run_andClose_styleArgument body id type
  rw [Accepts, hRun] at hAccepts
  simp only [hRun]
  by_cases hList :
      ((StyleScan.ofSource s).stopsAtOpenBrace && !simpleTypes.contains type) = true
  · have hThird :
        thirdPart body id type (StyleScan.ofSource s) = ownCases body id type :=
      if_pos hList
    obtain ⟨hStops, hType⟩ := Bool.and_eq_true_iff.mp hList
    -- a list of cases: the list itself is sealed, and it opens with a brace
    have hSealed : (andClose (ownCases body id type)).SealedAt s :=
      sealed_andClose
        (((decided_caseList hBody _ _ _).andThen fun _ => decided_checked _) s)
    have hOpens : Opens (andClose (ownCases body id type)) s :=
      ((opens_caseList body type false false
        (closesHere_eq_false_of_stopsAtOpenBrace hStops)).bind _).bind _
    rw [hThird] at hAccepts ⊢
    obtain ⟨hSome, hEnds, hAny⟩ := hSealed e x t hAccepts hSplit
    -- the first brace has been read, so the scan of another text finds it too
    obtain ⟨lead, u, hLead, rfl⟩ :=
      hOpens.exists_lead (by rw [hAccepts.2]; exact hSplit) fun fault hFault =>
        absurd (hAccepts.1.symm.trans hFault) (by simp)
    refine ⟨hSome, hEnds, fun t' => ?_⟩
    rw [List.append_assoc, List.cons_append, thirdPart_eq_of_opens body hLead hType]
    rw [← List.cons_append, ← List.append_assoc]
    exact hAny t'
  · have hThird : thirdPart body id type (StyleScan.ofSource s) =
        styleOnly id type (StyleScan.ofSource s) := if_neg hList
    rw [hThird] at hAccepts ⊢
    -- a style: what is read after the scan is sealed
    obtain ⟨hSome, hEnds, hAny⟩ :=
      sealed_andClose (decided_styleOnly id type s) e x t hAccepts hSplit
    refine ⟨hSome, hEnds, fun t' => ?_⟩
    -- the brace at which the scan stopped has been read
    have hStop := stop_eq_of_accepts_styleOnly hAccepts
    obtain ⟨y, rfl⟩ : ∃ y, x = y ++ ['\x7d'] := by
      have hSource := Stretch.source_append_rest Dialect.style false s
      have hRest : (Dialect.style.scan false s).rest = '\x7d' :: t := hStop
      refine ⟨Glyph.sourceOf (Dialect.style.scan false s).glyphs, ?_⟩
      rw [hRest, ← List.singleton_append, ← List.append_assoc] at hSource
      exact List.append_cancel_right (hSplit.trans hSource.symm)
    -- so the scan of the text with another continuation stops at the same place
    have hFar : thirdPart body id type (StyleScan.ofSource (y ++ '\x7d' :: t')) =
        thirdPart body id type (StyleScan.ofSource s) := by
      have hSplit' : y ++ '\x7d' :: t = s := by simpa using hSplit
      exact thirdPart_eq_of_far body hSplit' (by rw [hStop]) rfl
    have hText : y ++ ['\x7d'] ++ t' = y ++ '\x7d' :: t' := by simp
    rw [hText, hFar, hThird, ← hText]
    exact hAny t'

/-- The argument of a placeholder is sealed by the closing brace, for each kind of type. -/
theorem sealed_argument {id type : String} (s : List Char) :
    (andClose (argument body id type)).SealedAt s := by
  unfold argument
  split
  · exact sealed_andClose (decided_pluralArgument hBody id _ s)
  · split
    · exact sealed_andClose (decided_selectArgument hBody id s)
    · exact sealed_styleArgument hBody

/-- All that may follow a type is sealed by the closing brace. -/
theorem sealed_afterType (id type : String) : (afterType body id type).Sealed := by
  refine fun s => (decided_space s).bind_sealed fun _ _ _ =>
    DecidedAt.bind_sealed (decided_peek _)
    fun next t _ => ?_
  split
  · exact DecidedAt.bind_sealed (decided_require _ _ t) fun _ t _ =>
      (sealed_take t).bind_idle fun _ => idle_checked _
  · exact (decided_demand _ _ _ t).bind_sealed fun _ t _ =>
      (decided_space t).bind_sealed fun _ t _ =>
      sealed_argument hBody t

/-- All that may follow an identifier is sealed by the closing brace. -/
theorem sealed_afterId (id : String) : (afterId body id).Sealed := by
  refine fun s => (decided_space s).bind_sealed fun _ _ _ =>
    DecidedAt.bind_sealed (decided_peek _)
    fun next t _ => ?_
  split
  · exact (sealed_take t).bind_idle fun _ => idle_checked _
  · exact (decided_demand _ _ _ t).bind_sealed fun _ t _ =>
      (decided_space t).bind_sealed fun _ t _ =>
      (decided_name _ _ t).bind_sealed fun type t _ => sealed_afterType hBody id type t

/-- A placeholder is read whatever comes after its closing brace. -/
theorem sealed_placeholder : (placeholder body).Sealed := fun s =>
  (decided_space s).bind_sealed fun _ t _ =>
    (decided_name _ _ t).bind_sealed fun id t _ =>
    sealed_afterId hBody id t

end

end Grammar

end MessagePattern
