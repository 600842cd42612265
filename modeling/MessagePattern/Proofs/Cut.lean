import MessagePattern.Proofs.Concatenation
import MessagePattern.Proofs.Limits

/-!
# Messages that are cut out

A message in braces can be cut out of its pattern, without the brace that ends it, and
is then read by itself as it was read where it stood. The closing brace is replaced by
the end of the text, which is the one other thing that ends a message. It is not seen by
what the message is made of: no apostrophe stands alone in front of it, for in front of a
brace an apostrophe opens a quoted run, and a placeholder ends with a brace of its own.

* `Dialect.scan_step`, `Dialect.scan_front` — what a scan owes to the text after it;
* `Dialect.scan_cut` — a scan of the text that a scan has covered;
* `Grammar.run_element_cut`, `Grammar.run_elements_cut` — elements in front of a closing
  brace;
* `Grammar.runAt_message_of_subMessage` — a message in braces, cut out.
-/

namespace MessagePattern

/-! ## Scans -/

/-- Every glyph is read off at least one character. -/
theorem Glyph.source_ne_nil (g : Glyph) : g.source ≠ [] := by
  cases g <;> simp [source]

namespace Dialect

/-- After a glyph, a text may be replaced by one that begins in the same way. Outside of
quoted runs, a text that an apostrophe would quote may also be replaced by any that does
not begin with an apostrophe. -/
def Replaceable (d : Dialect) (inRun : Bool) (t t' : List Char) : Prop :=
  t'.head? = t.head? ∨
    inRun = false ∧ (∃ c ∈ t.head?, c ≠ '\'' ∧ d.opens c = true) ∧ t'.head? ≠ some '\''

/-- The first glyph of a scan: the text that it covers, the scan of the text after it,
and what that text may be replaced by. An unquoted character is met outside of quoted
runs. -/
theorem scan_step (d : Dialect) {inRun : Bool} {s : List Char} {g : Glyph} {gs : List Glyph}
    (h : (d.scan inRun s).glyphs = g :: gs) :
    ∃ inRun' t, s = g.source ++ t ∧ (d.scan inRun s) = (d.scan inRun' t).cons g ∧
      (∀ hs, Glyph.quotedAfter inRun (g :: hs) = Glyph.quotedAfter inRun' hs) ∧
      (∀ c, g = .bare c → inRun = false) ∧
      ∀ t', d.Replaceable inRun' t t' →
        d.scan inRun (g.source ++ t') = (d.scan inRun' t').cons g := by
  -- by the rule that reads the first glyph; only an apostrophe looks at what follows
  cases inRun, s using d.scan_cases with
  | nil inRun =>
    rw [scan.eq_1] at h
    exact absurd h (by simp)
  | pair inRun t =>
    -- two apostrophes are one glyph whatever comes after them
    rw [d.scan_pair] at h ⊢
    obtain ⟨rfl, -⟩ := List.cons.inj h
    refine ⟨inRun, t, rfl, rfl, fun _ => rfl, by simp, ?_⟩
    intro t' _
    exact d.scan_pair inRun t'
  | close t hNext =>
    -- a closing apostrophe stays one unless another follows
    rw [d.scan_close hNext] at h ⊢
    obtain ⟨rfl, -⟩ := List.cons.inj h
    refine ⟨false, t, rfl, rfl, fun _ => rfl, by simp, ?_⟩
    rintro t' (hSame | ⟨-, -, hNoQuote⟩)
    · exact d.scan_close (t := t') (by rwa [hSame])
    · exact d.scan_close (t := t') hNoQuote
  | inside c t hNotQuote =>
    rw [d.scan_quoted_char hNotQuote] at h ⊢
    obtain ⟨rfl, -⟩ := List.cons.inj h
    refine ⟨true, t, rfl, rfl, fun _ => rfl, by simp, ?_⟩
    intro t' _
    exact d.scan_quoted_char hNotQuote t'
  | opening c t hNotQuote hOpens =>
    rw [d.scan_open hNotQuote hOpens] at h ⊢
    obtain ⟨rfl, -⟩ := List.cons.inj h
    refine ⟨true, c :: t, rfl, rfl, fun _ => rfl, by simp, ?_⟩
    -- an opening apostrophe has looked at the character it quotes
    rintro t' (hSame | ⟨hUnquoted, -⟩)
    · obtain ⟨u, rfl⟩ := List.head?_eq_some_iff.mp hSame
      exact d.scan_open hNotQuote hOpens u
    · exact absurd hUnquoted (by decide)
  | lone t hLone =>
    rw [d.scan_lone hLone] at h ⊢
    obtain ⟨rfl, -⟩ := List.cons.inj h
    refine ⟨false, t, rfl, rfl, fun _ => rfl, by simp, ?_⟩
    rintro t' (hSame | ⟨-, ⟨c, hHead, -, hOpens⟩, -⟩)
    · exact d.scan_lone (t := t') (by rwa [hSame])
    · -- the apostrophe would have opened a run
      exact absurd hOpens (by simp [(hLone c hHead).2])
  | stop c t hNotQuote hStops =>
    -- nothing is read off here
    rw [d.scan_unquoted hNotQuote, if_pos hStops] at h
    exact absurd h (by simp)
  | plain c t hNotQuote hGoesOn =>
    rw [d.scan_plain hNotQuote hGoesOn] at h ⊢
    obtain ⟨rfl, -⟩ := List.cons.inj h
    refine ⟨false, t, rfl, rfl, fun _ => rfl, by simp, ?_⟩
    intro t' _
    exact d.scan_plain hNotQuote hGoesOn t'

/-- The first glyphs of a scan are found again in front of any text that may replace the
text after them, and the scan goes on in that text. -/
theorem scan_front (d : Dialect) {inRun : Bool} {s : List Char} {gs hs : List Glyph}
    {u : List Char} (hGlyphs : (d.scan inRun s).glyphs = gs ++ hs)
    (hAfter : d.Replaceable (Glyph.quotedAfter inRun gs)
      (Glyph.sourceOf hs ++ (d.scan inRun s).rest) u) :
    d.scan inRun (Glyph.sourceOf gs ++ u) =
      ⟨gs ++ (d.scan (Glyph.quotedAfter inRun gs) u).glyphs,
        (d.scan (Glyph.quotedAfter inRun gs) u).rest⟩ := by
  induction gs generalizing inRun s with
  | nil => rfl
  | cons g gs ih =>
    -- the first glyph is read off again, and then the others
    obtain ⟨inRun', t, -, hStep, hQuoted, -, hReplace⟩ := d.scan_step hGlyphs
    rw [hStep] at hGlyphs hAfter
    rw [hQuoted] at hAfter ⊢
    have hMore : (d.scan inRun' t).glyphs = gs ++ hs := (List.cons.inj hGlyphs).2
    have hSource := Stretch.source_append_rest d inRun' t
    rw [hMore, Glyph.sourceOf_append, List.append_assoc] at hSource
    have hNext : d.Replaceable inRun' t (Glyph.sourceOf gs ++ u) := by
      cases gs with
      | nil => rwa [← hSource]
      | cons g' gs =>
        -- the next glyph is the same, so the text begins as it did
        left
        rw [← hSource, Glyph.sourceOf_cons, List.append_assoc, List.append_assoc,
          List.head?_append_of_ne_nil _ g'.source_ne_nil,
          List.head?_append_of_ne_nil _ g'.source_ne_nil]
    -- the first glyph is read off as before, and the others by the hypothesis
    rw [Glyph.sourceOf_cons, List.append_assoc, hReplace _ hNext, ih hMore hAfter]
    rfl

/-- A scan stops outside of quoted runs, at a stop character that is no apostrophe. -/
theorem scan_rest_eq_cons (d : Dialect) {inRun : Bool} {s t : List Char} {c : Char}
    (h : (d.scan inRun s).rest = c :: t) :
    Glyph.quotedAfter inRun (d.scan inRun s).glyphs = false ∧ c ≠ '\'' ∧
      d.stops c = true := by
  -- only the last step of the scan stops at a character, and it is outside of a run
  induction inRun, s using d.scan_induction with
  | nil inRun =>
    rw [scan.eq_1] at h
    exact absurd h (by simp)
  | pair inRun t ih =>
    rw [d.scan_pair] at h ⊢
    exact ih h
  | close t hNext ih =>
    rw [d.scan_close hNext] at h ⊢
    exact ih h
  | inside c t hNotQuote ih =>
    rw [d.scan_quoted_char hNotQuote] at h ⊢
    exact ih h
  | opening c t hNotQuote hOpens ih =>
    rw [d.scan_open hNotQuote hOpens] at h ⊢
    exact ih h
  | lone t hLone ih =>
    rw [d.scan_lone hLone] at h ⊢
    exact ih h
  | stop c t hNotQuote hStops =>
    rw [d.scan_unquoted hNotQuote, if_pos hStops] at h ⊢
    obtain ⟨rfl, -⟩ := List.cons.inj h
    exact ⟨rfl, hNotQuote, hStops⟩
  | plain c t hNotQuote hGoesOn ih =>
    rw [d.scan_plain hNotQuote hGoesOn] at h ⊢
    exact ih h

/-- The text that a scan has covered is scanned alike by itself, if the characters that
stop the scan could have been quoted. -/
theorem scan_cut (d : Dialect) (hOpens : ∀ c, d.stops c = true → d.opens c = true)
    (inRun : Bool) (s : List Char) :
    d.scan inRun (Glyph.sourceOf (d.scan inRun s).glyphs) =
      ⟨(d.scan inRun s).glyphs, []⟩ := by
  have hSource := Stretch.source_append_rest d inRun s
  cases hRest : (d.scan inRun s).rest with
  | nil =>
    -- all of the text has been covered
    rw [hRest, List.append_nil] at hSource
    rw [hSource, ← hRest]
  | cons c t =>
    -- the scan stopped outside of a run, at a character that opens one after an apostrophe
    obtain ⟨hClosed, hNotQuote, hStops⟩ := d.scan_rest_eq_cons hRest
    have hAfter : d.Replaceable (Glyph.quotedAfter inRun (d.scan inRun s).glyphs)
        (Glyph.sourceOf [] ++ (d.scan inRun s).rest) [] := by
      right
      rw [hRest]
      exact ⟨hClosed, ⟨c, rfl, hNotQuote, hOpens c hStops⟩, by simp⟩
    -- the glyphs are read off again, and nothing of the empty text is
    have hFront := d.scan_front (List.append_nil _).symm hAfter
    rw [List.append_nil, hClosed, scan.eq_1, List.append_nil] at hFront
    exact hFront

end Dialect

/-! ## Elements -/

namespace Grammar

open Reader Declared

/-- A pound sign that stands for a number is one element. -/
theorem run_item_of_pound (body : Body) (t : List Char) :
    (elementItem body true).run ('#' :: t) = ⟨.ok .pound, [⟨.pound, "#"⟩], t⟩ := rfl

/-- Where a list goes on in front of a closing brace, it goes on without the brace. -/
theorem closesHere_cut {x t : List Char} (hGoesOn : closesHere (x ++ '\x7d' :: t) = false) :
    closesHere x = false := by
  cases x with
  | nil => exact absurd hGoesOn (by simp [closesHere])
  | cons c x => exact hGoesOn

section
variable {body : Body} (hBody : ∀ b, (body b).Decided Exempt)
include hBody

/-- The element in front of a closing brace is read alike where the text ends instead. -/
theorem run_element_cut {b : Bool} {x t : List Char} {e : Element}
    (hGoesOn : closesHere (x ++ '\x7d' :: t) = false)
    (h : (elementItem body b).Accepts (x ++ '\x7d' :: t) e ('\x7d' :: t)) :
    (elementItem body b).run x =
      ⟨.ok e, ((elementItem body b).run (x ++ '\x7d' :: t)).tokens, []⟩ := by
  obtain ⟨c, x, rfl⟩ := exists_cons_of_goesOn (closesHere_cut hGoesOn)
  rw [List.cons_append] at h hGoesOn ⊢
  cases hSpecial : isSpecial b c with
  | false =>
    -- text: what it quotes is not changed by the end of the text
    have hHere := run_item_of_text body (s := x ++ '\x7d' :: t) hSpecial rfl
    have hSource :=
      Stretch.source_append_rest (Dialect.text b) false (c :: (x ++ '\x7d' :: t))
    have hCut := (Dialect.text b).scan_cut (fun _ h => h) false (c :: (x ++ '\x7d' :: t))
    rw [Accepts, hHere] at h
    obtain ⟨hElement, hRest⟩ := h
    simp only at hRest
    rw [hRest] at hSource
    have hCovered : Glyph.sourceOf _ = c :: x := List.append_cancel_right hSource
    rw [hCovered] at hCut
    rw [run_item_of_text body hSpecial hCut, hHere, ← hElement]
  | true =>
    have hNotClose : c ≠ '\x7d' := by simpa [closesHere] using hGoesOn
    by_cases hOpen : c = '\x7b'
    · -- a placeholder ends with a closing brace of its own
      subst hOpen
      rcases hRun : (placeholder body).run (x ++ '\x7d' :: t) with ⟨result, tokens, rest⟩
      have hHere := run_item_of_brace (b := b) hRun
      rw [Accepts, hHere] at h
      obtain ⟨rfl, rfl⟩ := h
      obtain ⟨-, -, hAny⟩ :=
        sealed_placeholder hBody (x ++ '\x7d' :: t) e x ('\x7d' :: t)
          (by rw [Accepts, hRun]; exact ⟨rfl, rfl⟩) rfl
      have hAlone := hAny []
      rw [List.append_nil, hRun] at hAlone
      rw [run_item_of_brace hAlone, hHere]
    · -- a pound sign that stands for a number is read by itself
      obtain ⟨rfl, rfl⟩ : b = true ∧ c = '#' := by
        simpa [isSpecial, isBrace, hNotClose, hOpen] using hSpecial
      rw [Accepts, run_item_of_pound] at h
      obtain ⟨hElement, hRest⟩ := h
      obtain rfl : x = [] := List.append_left_eq_self.mp hRest
      rw [run_item_of_pound, run_item_of_pound, ← hElement]

/-- The elements in front of a closing brace are read alike where the text ends instead. -/
theorem run_elements_cut {b : Bool} {s x t : List Char} {m : Message}
    (h : (untilClose (elementItem body b)).Accepts s m ('\x7d' :: t))
    (hSplit : x ++ '\x7d' :: t = s) :
    (untilClose (elementItem body b)).run x =
      ⟨.ok m, ((untilClose (elementItem body b)).run s).tokens, []⟩ := by
  -- by induction on the elements; only the last one stands in front of the brace
  induction s using untilClose_induction (elementItem body b) generalizing x m with
  | step s ih =>
    rcases accepts_untilClose.mp h with ⟨hEnds, rfl, rfl⟩ |
      ⟨hGoesOn, e, u, m', hItem, hMore, rfl⟩
    · -- nothing stands in front of the brace
      obtain rfl : x = [] := List.append_left_eq_self.mp hSplit
      rw [untilClose_run_of_close hEnds, untilClose_run_of_close rfl]
    · have hDecided := decided_element hBody b s
      obtain ⟨x, y, rfl, hHere, hThere⟩ :=
        exists_split_of_accepts hDecided hItem hMore.2 hSplit
      -- the first element is cut off with the text, or others come after it
      have hFirst : (elementItem body b).run (x ++ y) =
          ⟨.ok e, ((elementItem body b).run s).tokens, y⟩ := by
        cases y with
        | nil =>
          obtain rfl : '\x7d' :: t = u := hThere
          subst hHere
          rw [List.append_nil]
          exact run_element_cut hBody hGoesOn hItem
        | cons c y =>
          -- more elements follow, and the next one begins as it did
          exact hDecided.run_of_accepts hItem hHere (by rw [← hThere]; rfl)
      obtain ⟨hOk, rfl⟩ := hItem
      rw [untilClose_run_of_ok hGoesOn (Accepts.run_eq ⟨hOk, rfl⟩),
        untilClose_run_of_ok (closesHere_cut (by rwa [hSplit])) hFirst,
        ih e hGoesOn hOk hMore hThere]
      rfl

end

/-! ## Messages in braces -/

/-- A message that is read is read as its elements are. -/
theorem run_elements_of_accepts {body : Body} {cx : Context} {s t : List Char} {m : Message}
    (h : (elements body cx).Accepts s m t) :
    (elements body cx).run s = (untilClose (elementItem body cx.poundIsNumber)).run s := by
  obtain ⟨m', t', hList, hNoBrace⟩ := accepts_bind.mp h
  rw [accepts_peek_bind, accepts_require_bind, accepts_pure] at hNoBrace
  obtain ⟨hCondition, rfl, rfl⟩ := hNoBrace
  have hRun := hList.run_eq
  rw [elements, run_bind_of_ok hList.1, hRun, run_peek_bind, hCondition]
  simp [require, Reply.andThen]

/-- A message one level down, up to the closing brace after it, is a message at the root. -/
theorem run_message_cut {cx : Context} (hDepth : 0 ≤ cx.depth) {b : Bool}
    {s x t : List Char} {m : Message}
    (h : (message (cx.enter b)).Accepts s m ('\x7d' :: t)) (hSplit : x ++ '\x7d' :: t = s) :
    (message ⟨cx.limit, 0, b⟩).run x =
      ⟨.ok m, ((message (cx.enter b)).run s).tokens, []⟩ := by
  rw [message_eq] at h
  have hHere : (message (cx.enter b)).run s =
      (untilClose (elementItem (subMessage (cx.enter b)) b)).run s := by
    rw [message_eq]
    exact run_elements_of_accepts h
  -- the elements are read without the brace as they are in front of it
  have hCut : (untilClose (elementItem (subMessage (cx.enter b)) b)).run x =
      ⟨.ok m, ((message (cx.enter b)).run s).tokens, []⟩ := by
    rw [hHere]
    exact run_elements_cut (decided_subMessage _) (accepts_elements.mp h).1 hSplit
  -- and at the root as one level down, for as many levels are left there, or more
  have hLevels : cx.limit - (cx.depth + 1) ≤ cx.limit - 0 := by omega
  have hBody := extends_subMessage (cx.enter b)
    ⟨cx.limit, 0, b⟩ (Int.le_add_one hDepth) (Int.le_refl 0) hLevels
  have hRoot := extends_untilClose (elementItem _ b) (elementItem _ b)
    (extends_element hBody b) x
  rcases hRoot with hSame | ⟨⟨limit, hDeep⟩, -⟩
  · rw [hCut] at hSame
    have hEnd : (elements (subMessage ⟨cx.limit, 0, b⟩) ⟨cx.limit, 0, b⟩).Accepts x m [] :=
      accepts_elements.mpr ⟨by rw [Accepts, hSame]; exact ⟨rfl, rfl⟩, fun _ => rfl⟩
    rw [message_eq, run_elements_of_accepts hEnd, hSame]
  · rw [hCut] at hDeep
    exact absurd hDeep (by simp)

/-- A message in braces is a message and a closing brace, and the message is one at the
root too. -/
theorem run_message_of_subMessage {cx : Context} (hDepth : 0 ≤ cx.depth) {b : Bool}
    {s t : List Char} {m : Message} (h : (subMessage cx b).Accepts s m t) :
    ∃ x inner, x ++ '\x7d' :: t = s ∧
      ((subMessage cx b).run s).tokens = inner ++ [⟨.closeBrace, "\x7d"⟩] ∧
      (message ⟨cx.limit, 0, b⟩).run x =
        ⟨.ok m, inner, []⟩ := by
  -- a level that is full admits no message
  by_cases hFull : cx.isFull = true
  · rw [subMessage, if_pos hFull] at h
    exact absurd h not_accepts_reject
  · have hBody : subMessage cx b = closed (message (cx.enter b)) := if_neg hFull
    -- what was accepted is a message and then its closing brace
    rw [hBody] at h ⊢
    obtain ⟨m', u, hMessage, hClose⟩ := accepts_bind.mp h
    obtain ⟨⟨⟩, t', hBrace, hPure⟩ := accepts_bind.mp hClose
    obtain ⟨rfl, rfl⟩ := accepts_pure.mp hPure
    obtain rfl := accepts_demand.mp hBrace
    -- the message took the text in front of the brace
    have hTiles := (message_tiles (cx.enter b) s).joined_append_rest
    rw [hMessage.2] at hTiles
    refine ⟨_, _, hTiles, ?_, run_message_cut hDepth hMessage hTiles⟩
    rw [closed, run_bind_of_ok hMessage.1, hMessage.2, run_bind_of_ok hBrace.1,
      run_demand_cons]
    rfl

/-- **A message in braces means the same without the braces.** Where a message in braces is
read from one place in a source text to another, the text between, without the closing
brace, is read by itself to its end, as a message at the root under the same limit and with
the same meaning of the pound sign. It gives the same message and the same log, up to the
closing brace. -/
theorem runAt_message_of_subMessage (cx : Context) (hDepth : 0 ≤ cx.depth) (b : Bool)
    (source : String) (i j : Nat) (m : Message) (log : List Token)
    (h : (subMessage cx b).runAt ⟨source, i⟩ = ⟨.ok m, log, ⟨source, j⟩⟩) :
    ∃ inner, log = inner ++ [⟨.closeBrace, "\x7d"⟩] ∧
      (message { limit := cx.limit, depth := 0, poundIsNumber := b }).runAt
          ⟨(Cursor.mk source i).sliceTo (j - 1), 0⟩ =
        ⟨.ok m, inner, ⟨(Cursor.mk source i).sliceTo (j - 1),
          ((Cursor.mk source i).sliceTo (j - 1)).length⟩⟩ := by
  -- the run at a place is the run on the text from there
  rw [runAt, Outcome.mk.injEq, Cursor.mk.injEq] at h
  obtain ⟨hMapped, rfl, -, hEnd⟩ := h
  have hResult : ((subMessage cx b).run (Cursor.mk source i).rest).result = .ok m :=
    eq_ok_of_mapError hMapped
  obtain ⟨x, inner, hSplit, hLog, hRun⟩ := run_message_of_subMessage hDepth ⟨hResult, rfl⟩
  -- the text between the two places is what was read in front of the brace
  have hSlice : (Cursor.mk source i).sliceTo (j - 1) = String.ofList x := by
    have hLength := congrArg List.length hSplit
    rw [List.length_append, List.length_cons] at hLength
    have hWidth : j - 1 - i = x.length := by
      simp only at hEnd
      omega
    rw [Cursor.sliceTo, hWidth, ← hSplit, List.take_left]
  refine ⟨inner, hLog, ?_⟩
  rw [hSlice, runAt]
  have hRest : (Cursor.mk (String.ofList x) 0).rest = x := String.toList_ofList
  rw [hRest, hRun]
  simp [Except.mapError]

/-- A quoted brace stands next to the closing one, in a plural sub-message two levels
down. -/
theorem runAt_message_of_subMessage_of_quoted :
    0 ≤ (Context.mk 5 1 false).depth ∧
      (subMessage ⟨5, 1, false⟩ true).runAt ⟨"\x7bn,plural,other\x7b#'\x7d'\x7d\x7d", 16⟩ =
        ⟨.ok [.pound, .text "\x7d"],
          [⟨.pound, "#"⟩, ⟨.text, "'\x7d'"⟩, ⟨.closeBrace, "\x7d"⟩],
          ⟨"\x7bn,plural,other\x7b#'\x7d'\x7d\x7d", 21⟩⟩ ∧
      ∃ inner,
        [⟨.pound, "#"⟩, ⟨.text, "'\x7d'"⟩, ⟨.closeBrace, "\x7d"⟩] =
            inner ++ [⟨.closeBrace, "\x7d"⟩] ∧
          (message { limit := 5, depth := 0, poundIsNumber := true }).runAt ⟨"#'\x7d'", 0⟩ =
            ⟨.ok [.pound, .text "\x7d"], inner, ⟨"#'\x7d'", 4⟩⟩ := by
  refine ⟨by decide, ?inBraces, ?_⟩
  · refine (Outcome.mk.injEq ..).mpr ⟨?_, ?_, ?_⟩
    all_goals decide +kernel
  · exact runAt_message_of_subMessage ⟨5, 1, false⟩ (by decide) true _ 16 21 _ _ ?inBraces

end Grammar

end MessagePattern
