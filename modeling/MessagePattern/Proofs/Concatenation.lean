import MessagePattern.Proofs.Outcomes
import MessagePattern.Proofs.ViablePrefix
import MessagePattern.Proofs.WellFormed

/-!
# Parsing one pattern after another

A pattern that parses can be put in front of any other one, and what the other one gives
comes after what the first one gives: elements after elements, tokens after tokens, and an
error as far behind the first pattern as it was from the start. At the seam, text goes on:
the last text of the first pattern and the first text of the second become one text.

The quoting of the first pattern must have come to rest. An apostrophe at its end could
be paired with one that follows or open a quoted run, and an open run would take in the
second pattern.

* `joinSeam` — one list after another, with members that go together made one;
* `Message.fused`, `Token.fused` — messages and logs one after another;
* `Token.endsQuoted` — whether a log ends within a quoted run;
* `Dialect.scan_append` — a scan that has come to rest goes on as one from the start;
* `Reply.after` — what is read of the second pattern, put after what the first one gave;
* `Grammar.run_last_element` — the last element before the seam;
* `Grammar.run_elements_append` — the elements of one text after those of another;
* `Parser.parseInto_append` — parses.
-/

namespace MessagePattern

/-! ## Seams -/

section
variable {α : Type} {merge : α → α → Option α}

/-- Puts one list after another. Where the last member of the first and the first member
of the second go together, they become one member. -/
def joinSeam (merge : α → α → Option α) : List α → List α → List α
  | [], r => r
  | [a], r =>
    match r.head?.bind (merge a) with
    | some c => c :: r.tail
    | none => a :: r
  | a :: a' :: l, r => a :: joinSeam merge (a' :: l) r

/-- Only the last member of the first list is at the seam. -/
theorem joinSeam_append {l : List α} (hSome : l ≠ []) (k r : List α) :
    joinSeam merge (k ++ l) r = k ++ joinSeam merge l r := by
  induction k with
  | nil => rfl
  | cons a k ih =>
    obtain ⟨b, t, hTail⟩ := List.exists_cons_of_ne_nil (show k ++ l ≠ [] by simp [hSome])
    rw [List.cons_append, hTail, joinSeam, ← hTail, ih, List.cons_append]

/-- Where nothing goes together, a seam is an end and a beginning. -/
theorem joinSeam_of_apart {l r : List α}
    (hApart : ∀ a ∈ l.getLast?, ∀ b ∈ r.head?, merge a b = none) :
    joinSeam merge l r = l ++ r := by
  -- by the last member of the first list, if there is one
  rcases l.eq_nil_or_concat' with rfl | ⟨l, a, rfl⟩
  · rfl
  · have hNone : r.head?.bind (merge a) = none :=
      Option.bind_eq_none_iff.mpr (hApart a (by simp))
    rw [joinSeam_append (by simp), joinSeam, hNone, List.append_assoc]
    rfl

end

/-- Two texts are one text. -/
def Element.fuse? : Element → Element → Option Element
  | .text v, .text w => some (.text (v ++ w))
  | _, _ => none

/-- Two tokens of text are one. -/
def Token.fuse? (a b : Token) : Option Token :=
  if a.kind = .text ∧ b.kind = .text then some ⟨.text, a.text ++ b.text⟩ else none

/-- One message after another. -/
def Message.fused (m n : Message) : Message := joinSeam Element.fuse? m n

/-- One log after another. -/
def Token.fused (log more : List Token) : List Token := joinSeam Token.fuse? log more

/-- Only two texts go together. -/
theorem Element.fuse?_of_not_text {e e' : Element}
    (h : e.isText = false ∨ e'.isText = false) : Element.fuse? e e' = none := by
  cases e <;> cases e' <;> simp_all [Element.fuse?, Element.isText]

/-- Only two text tokens go together. -/
theorem Token.fuse?_of_not_text {a b : Token} (h : a.kind ≠ .text ∨ b.kind ≠ .text) :
    Token.fuse? a b = none := by
  rw [Token.fuse?, if_neg]
  rintro ⟨hText, hMore⟩
  exact h.elim (fun hNot => hNot hText) fun hNot => hNot hMore

/-- Nothing is fused with a closing brace. -/
theorem Reader.EndsClosed.fuse?_eq_none {log : List Token} (h : EndsClosed log) :
    ∀ a ∈ log.getLast?, ∀ b, Token.fuse? a b = none := by
  obtain ⟨before, text, rfl⟩ := h
  intro a ha b
  obtain rfl : ⟨.closeBrace, text⟩ = a := by simpa using ha
  exact Token.fuse?_of_not_text (.inl (by simp))

/-! ## Scans -/

/-- Whether a scan stands in a quoted run after some glyphs. -/
def Glyph.quotedAfter : Bool → List Glyph → Bool
  | inRun, [] => inRun
  | inRun, .quote :: gs => quotedAfter (!inRun) gs
  | inRun, _ :: gs => quotedAfter inRun gs

/-- Whether a log ends with message text that leaves a quoted run open. -/
def Token.endsQuoted (log : List Token) : Bool :=
  match log.getLast? with
  | some ⟨.text, text⟩ =>
    Glyph.quotedAfter false ((Dialect.text false).scan false text.toList).glyphs
  | _ => false

/-- Whether a log ends within a quoted run is seen at its end. -/
theorem Token.endsQuoted_append {more : List Token} (hSome : more ≠ [])
    (log : List Token) : Token.endsQuoted (log ++ more) = Token.endsQuoted more := by
  rw [endsQuoted, endsQuoted, List.getLast?_append_of_ne_nil log hSome]

/-- A scan that comes to the end of a text unquoted, and not at an apostrophe, goes on
before more text as a scan of that text does. -/
theorem Dialect.scan_append (d : Dialect) (inRun : Bool) {s : List Char}
    (hRest : (d.scan inRun s).rest = []) (hLast : ¬['\''] <:+ s)
    (hClosed : Glyph.quotedAfter inRun (d.scan inRun s).glyphs = false) (t : List Char) :
    d.scan inRun (s ++ t) =
      ⟨(d.scan inRun s).glyphs ++ (d.scan false t).glyphs, (d.scan false t).rest⟩ := by
  have hInner : ∀ {c : Char} {u : List Char}, ¬['\''] <:+ c :: u → ¬['\''] <:+ u :=
    fun hOuter hSuffix => hOuter (hSuffix.trans (List.suffix_cons ..))
  -- by induction on the scan; where a glyph looks ahead, the text goes on
  induction inRun, s using d.scan_induction with
  | nil inRun =>
    -- the text ends outside of a run, so the scan goes on as from its beginning
    rw [scan.eq_1] at hClosed ⊢
    obtain rfl : inRun = false := hClosed
    rfl
  | pair inRun u ih =>
    rw [d.scan_pair] at hRest hClosed ⊢
    rw [List.cons_append, List.cons_append, d.scan_pair,
      ih hRest (hInner (hInner hLast)) hClosed]
    rfl
  | close u hNext ih =>
    -- the next character of the whole text is the one that was seen, as the text goes on
    have hMore : (u ++ t).head? ≠ some '\'' := by
      cases u with
      | nil => exact absurd (List.suffix_refl _) hLast
      | cons c u => exact hNext
    rw [d.scan_close hNext] at hRest hClosed ⊢
    rw [List.cons_append, d.scan_close hMore, ih hRest (hInner hLast) hClosed]
    rfl
  | inside c u hNotQuote ih =>
    rw [d.scan_quoted_char hNotQuote] at hRest hClosed ⊢
    rw [List.cons_append, d.scan_quoted_char hNotQuote, ih hRest (hInner hLast) hClosed]
    rfl
  | opening c u hNotQuote hOpens ih =>
    rw [d.scan_open hNotQuote hOpens] at hRest hClosed ⊢
    have hMore := ih hRest (hInner hLast) hClosed
    rw [List.cons_append] at hMore
    rw [List.cons_append, List.cons_append, d.scan_open hNotQuote hOpens, hMore]
    rfl
  | lone u hLone ih =>
    have hMore : ∀ c ∈ (u ++ t).head?, c ≠ '\'' ∧ d.opens c = false := by
      cases u with
      | nil => exact absurd (List.suffix_refl _) hLast
      | cons c u => exact hLone
    rw [d.scan_lone hLone] at hRest hClosed ⊢
    rw [List.cons_append, d.scan_lone hMore, ih hRest (hInner hLast) hClosed]
    rfl
  | stop c u hNotQuote hStops =>
    -- the scan would have stopped here, but it has reached the end
    rw [d.scan_unquoted hNotQuote, if_pos hStops] at hRest
    exact absurd hRest (by simp)
  | plain c u hNotQuote hGoesOn ih =>
    rw [d.scan_plain hNotQuote hGoesOn] at hRest hClosed ⊢
    rw [List.cons_append, d.scan_plain hNotQuote hGoesOn, ih hRest (hInner hLast) hClosed]
    rfl

/-! ## Lists of elements -/

namespace Reader

variable {α β : Type} {item : Item α}

/-- What a reader accepts tells its run, apart from the log. -/
theorem Accepts.run_eq {p : Reader α} {s t : List Char} {a : α} (h : p.Accepts s a t) :
    p.run s = ⟨.ok a, (p.run s).tokens, t⟩ := by
  rw [← h.1, ← h.2]

/-- At a closing brace, or at the end, a list has no members. -/
theorem untilClose_run_of_close {s : List Char} (hEnds : closesHere s = true) :
    (untilClose item).run s = ⟨.ok [], [], s⟩ := by
  rw [untilClose_run, if_pos hEnds]

/-- A first member is put in front of what is read after it. -/
theorem untilClose_run_of_ok {s t : List Char} {a : α} {tokens : List Token}
    (hGoesOn : closesHere s = false) (hFirst : item.run s = ⟨.ok a, tokens, t⟩) :
    (untilClose item).run s =
      ⟨((untilClose item).run t).result.map (a :: ·),
        tokens ++ ((untilClose item).run t).tokens, ((untilClose item).run t).rest⟩ := by
  have hOk : (item.run s).result = .ok a := by rw [hFirst]
  rw [untilClose_run, if_neg (by simp [hGoesOn]), run_bind_of_ok hOk, hFirst]
  simp only [run_bind, Reply.andThen]
  cases ((untilClose item).run t).result <;> simp [Except.map]

/-- A list stops in its first member if that stops. -/
theorem untilClose_run_of_error {s t : List Char} {fault : Fault} {tokens : List Token}
    (hGoesOn : closesHere s = false) (hFirst : item.run s = ⟨.error fault, tokens, t⟩) :
    (untilClose item).run s = ⟨.error fault, tokens, t⟩ := by
  have hError : (item.run s).result = .error fault := by rw [hFirst]
  rw [untilClose_run, if_neg (by simp [hGoesOn]), run_bind_of_error hError, hFirst]

end Reader

/-- A success that was mapped comes from a success. -/
theorem exists_of_map_eq_ok {ε α β : Type} {f : α → β} {x : Except ε α} {b : β}
    (h : x.map f = .ok b) : ∃ a, x = .ok a ∧ b = f a := by
  cases x with
  | ok a => exact ⟨a, rfl, (Except.ok.inj h).symm⟩
  | error cause => simp [Except.map] at h

/-- What a reply to the text after a message is, put after the message and its log. -/
def Reply.after (m : Message) (log : List Token) (r : Reply Message) : Reply Message :=
  ⟨r.result.map m.fused, Token.fused log r.tokens, r.rest⟩

/-- The reply to a whole text, by the reply to its elements: a closing brace that ends
them is out of place. -/
def Reply.atTop (r : Reply Message) : Reply Message :=
  ⟨r.result.bind fun m =>
      if r.rest.head? = some '\x7d' then .error (.violation .unexpected) else .ok m,
    r.tokens, r.rest⟩

/-- Whether a reply is one of a whole pattern does not hang on what stands in front of it. -/
theorem Reply.atTop_after (m : Message) (log : List Token) (r : Reply Message) :
    (r.after m log).atTop = r.atTop.after m log := by
  rw [atTop, atTop, after, after]
  cases r.result with
  | error fault => rfl
  | ok n =>
    by_cases hBrace : r.rest.head? = some '\x7d' <;> simp [Except.map, Except.bind, hBrace]

theorem Reply.after_nil (r : Reply Message) : r.after [] [] = r := by
  obtain ⟨result, tokens, rest⟩ := r
  cases result <;> rfl

/-- Only the last element and the last token are at the seam. -/
theorem Reply.after_cons {m : Message} {log : List Token} (hElements : m ≠ [])
    (hTokens : log ≠ []) (e : Element) (tokens : List Token) (r : Reply Message) :
    r.after (e :: m) (tokens ++ log) =
      ⟨(r.after m log).result.map (e :: ·), tokens ++ (r.after m log).tokens, r.rest⟩ := by
  rw [after, after, Token.fused, joinSeam_append hTokens]
  cases r.result with
  | error fault => rfl
  | ok n =>
    have hSeam : Message.fused (e :: m) n = e :: m.fused n :=
      joinSeam_append hElements [e] n
    simp only [Except.map, hSeam]
    rfl

/-- Where nothing goes together at the seam, the reply comes after the message. -/
theorem Reply.after_of_apart {m : Message} {log : List Token} {r : Reply Message}
    (hElements : ∀ n, r.result = .ok n →
      ∀ e ∈ m.getLast?, ∀ e' ∈ n.head?, Element.fuse? e e' = none)
    (hTokens : ∀ a ∈ log.getLast?, ∀ b ∈ r.tokens.head?, Token.fuse? a b = none) :
    r.after m log = ⟨r.result.map (m ++ ·), log ++ r.tokens, r.rest⟩ := by
  rw [after, Token.fused, joinSeam_of_apart hTokens]
  cases hResult : r.result with
  | ok n => simp only [Except.map, Message.fused, joinSeam_of_apart (hElements n hResult)]
  | error fault => rfl

namespace Grammar

open Reader Declared

section
variable {body : Body}

variable (body) in
/-- Text is read as far as it is scanned. -/
theorem run_item_of_text {b : Bool} {c : Char} {s : List Char} {stretch : Stretch}
    (hPlain : isSpecial b c = false)
    (hScan : (Dialect.text b).scan false (c :: s) = stretch) :
    (elementItem body b).run (c :: s) =
      ⟨.ok (.text (String.ofList (Glyph.valueOf stretch.glyphs))),
        [⟨.text, String.ofList (Glyph.sourceOf stretch.glyphs)⟩], stretch.rest⟩ := by
  -- the scan of a text that begins plainly is not empty
  have hSource : Glyph.sourceOf stretch.glyphs ≠ [] := by
    have hGlyphs := (Dialect.text b).scan_glyphs_ne_nil (t := s) hPlain
    obtain ⟨g, gs, hCons⟩ := List.exists_cons_of_ne_nil hGlyphs
    rw [← hScan, hCons]
    cases g <;> simp [Glyph.source]
  -- the element that begins with a plain character is a text
  have hRun : (elementItem body b).run (c :: s) =
      (text b >>= fun value => (pure (.text value) : Reader Element)).run (c :: s) := by
    show (element body b).run (c :: s) = _
    rw [element, run_peek_bind]
    -- neither a brace nor a pound sign that is a number stands here
    split
    · next hOpen =>
      obtain rfl : c = '\x7b' := by simpa using hOpen
      exact absurd hPlain (by simp [isSpecial, isBrace])
    · next hPound =>
      obtain rfl : c = '#' := by simpa using hPound
      obtain rfl : b = false := by simpa [isSpecial, isBrace] using hPlain
      rfl
    · rfl
  rw [hRun, run_bind_of_ok (by rw [run_text hScan]), run_text hScan]
  simp [hSource]

/-- Where a list of elements goes on, but not with text, a placeholder is opened. -/
theorem exists_open_of_special {s : List Char} (hGoesOn : closesHere s = false)
    (hSpecial : ∀ c ∈ s.head?, isSpecial false c = true) : ∃ t, s = '\x7b' :: t := by
  obtain ⟨c, t, rfl⟩ := exists_cons_of_goesOn hGoesOn
  have hHere : isSpecial false c = true := hSpecial c rfl
  have hNotClose : c ≠ '\x7d' := by simpa [closesHere] using hGoesOn
  obtain rfl : c = '\x7b' := by simpa [isSpecial, isBrace, hNotClose] using hHere
  exact ⟨t, rfl⟩

/-- After its brace a placeholder is read. -/
theorem run_item_of_brace {b : Bool} {s t : List Char} {result : Except Fault Element}
    {tokens : List Token} (hRun : (placeholder body).run s = ⟨result, tokens, t⟩) :
    (elementItem body b).run ('\x7b' :: s) =
      ⟨result, ⟨.openBrace, "\x7b"⟩ :: tokens, t⟩ := by
  show (element body b).run ('\x7b' :: s) = _
  rw [element, run_peek_bind]
  show (take .openBrace >>= fun _ => placeholder body).run ('\x7b' :: s) = _
  rw [run_bind_of_ok (by rw [run_take_cons]), run_take_cons]
  simp only [hRun, List.singleton_append]

/-- What is read after an opening brace is no text. -/
theorem not_isText_of_accepts {s t : List Char} {e : Element}
    (h : (placeholder body).Accepts s e t) : e.isText = false :=
  ((accepts_placeholder (bracketed_self body)).mp h).isText

/-- The elements of a text at the top level, where the pound sign is text. -/
abbrev topElements (body : Body) : Reader Message := untilClose (elementItem body false)

variable (body) in
/-- Where a special character stands, or nothing, neither an element of text nor a token
of text comes first. -/
theorem apart_of_special {t : List Char}
    (hStop : ∀ c ∈ t.head?, isSpecial false c = true) :
    (∀ n, ((topElements body).run t).result = .ok n → ∀ e ∈ n.head?, e.isText = false) ∧
      ∀ token ∈ ((topElements body).run t).tokens.head?, token.kind ≠ .text := by
  cases hGoesOn : closesHere t with
  | true =>
    -- there is no first member
    rw [untilClose_run_of_close hGoesOn]
    refine ⟨?_, by simp⟩
    intro n hOk
    obtain rfl : [] = n := by simpa using hOk
    simp
  | false =>
    obtain ⟨u, rfl⟩ := exists_open_of_special hGoesOn hStop
    -- the brace is the first token, and the first element is the placeholder, if any
    rcases hRun : (placeholder body).run u with ⟨result, tokens, rest⟩
    have hFirst := run_item_of_brace (b := false) hRun
    cases result with
    | error fault =>
      -- the first member is not given, and its first token is the brace
      rw [untilClose_run_of_error hGoesOn hFirst]
      exact ⟨by simp, by simp⟩
    | ok e =>
      have hAccepts : (placeholder body).Accepts u e rest := by
        rw [Accepts, hRun]
        exact ⟨rfl, rfl⟩
      rw [untilClose_run_of_ok hGoesOn hFirst]
      refine ⟨?_, by simp⟩
      intro n hOk e' hHead
      obtain ⟨n', -, rfl⟩ := exists_of_map_eq_ok hOk
      obtain rfl : e = e' := by simpa using hHead
      exact not_isText_of_accepts hAccepts

variable (body) in
/-- Text in front of another text is one text with what that text begins with. -/
theorem after_text (v w t : List Char) {stretch : Stretch}
    (hScan : (Dialect.text false).scan false t = stretch) :
    ((topElements body).run t).after [.text (String.ofList v)] [⟨.text, String.ofList w⟩] =
      ⟨((topElements body).run stretch.rest).result.map
          (.text (String.ofList (v ++ Glyph.valueOf stretch.glyphs)) :: ·),
        ⟨.text, String.ofList (w ++ Glyph.sourceOf stretch.glyphs)⟩ ::
          ((topElements body).run stretch.rest).tokens,
        ((topElements body).run stretch.rest).rest⟩ := by
  subst hScan
  by_cases hStop : ∀ d ∈ t.head?, isSpecial false d = true
  · -- no text stands there, so nothing is fused
    obtain ⟨hElements, hLog⟩ := apart_of_special body hStop
    have hNone : (Dialect.text false).scan false t = ⟨[], t⟩ :=
      Dialect.scan_stop _ rfl hStop
    rw [hNone, Reply.after_of_apart]
    · simp
    · intro n hOk e _ e' hHead
      exact Element.fuse?_of_not_text (.inr (hElements n hOk e' hHead))
    · intro a _ b hHead
      exact Token.fuse?_of_not_text (.inr (hLog b hHead))
  · -- the other text begins with text, which is fused with the one in front
    obtain ⟨d, u, rfl, hPlain⟩ : ∃ d u, t = d :: u ∧ isSpecial false d = false := by
      cases t with
      | nil => simp at hStop
      | cons d u => exact ⟨d, u, rfl, by simpa using hStop⟩
    have hFirst := run_item_of_text body (s := u) hPlain rfl
    -- the first member of the other text is all of its first stretch
    conv => lhs; rw [untilClose_run_of_ok (closesHere_of_plain hPlain u) hFirst]
    rw [String.ofList_append, String.ofList_append]
    generalize (topElements body).run
      ((Dialect.text false).scan false (d :: u)).rest = reply
    cases reply.result with
    -- the tokens are fused even where the second text is not read to its end
    | error fault => simp [Reply.after, Except.map, Token.fused, joinSeam, Token.fuse?]
    | ok n =>
      simp [Reply.after, Except.map, Message.fused, Token.fused, joinSeam, Element.fuse?,
        Token.fuse?]

/-- A text at the end goes on as text. -/
theorem run_last_text {c : Char} {s : List Char} {e : Element} {tokens : List Token}
    (hPlain : isSpecial false c = false)
    (hRun : (elementItem body false).run (c :: s) = ⟨.ok e, tokens, []⟩)
    (hLast : ¬['\''] <:+ c :: s) (hClosed : Token.endsQuoted tokens = false)
    (t : List Char) :
    (topElements body).run (c :: s ++ t) =
      ((topElements body).run t).after [e] tokens := by
  have hScan := hRun.symm.trans (run_item_of_text body hPlain rfl)
  obtain ⟨hElement, hTokens, hRest⟩ := Reply.mk.inj hScan
  -- all of the text was read, so the token holds it as it stands
  have hSource := Stretch.source_append_rest (Dialect.text false) false (c :: s)
  rw [← hRest, List.append_nil] at hSource
  rw [hSource] at hTokens
  obtain rfl := Except.ok.inj hElement
  subst hTokens
  -- the scan has come to rest, so it goes on over the other text as from its start
  have hMore := (Dialect.text false).scan_append false hRest.symm hLast
    (by simpa [Token.endsQuoted] using hClosed) t
  have hHere := run_item_of_text body (s := s ++ t) hPlain hMore
  rw [List.cons_append, untilClose_run_of_ok (closesHere_of_plain hPlain _) hHere,
    after_text body _ _ t rfl]
  simp [Glyph.sourceOf_append, Glyph.valueOf, hSource]

section
variable (hBody : ∀ b, (body b).Decided Exempt)
include hBody

/-- A placeholder at the end is read before any text, and nothing is fused with it. -/
theorem run_last_placeholder {s : List Char} {e : Element} {tokens : List Token}
    (hRun : (placeholder body).run s = ⟨.ok e, tokens, []⟩) (t : List Char) :
    (topElements body).run ('\x7b' :: s ++ t) =
      ((topElements body).run t).after [e] (⟨.openBrace, "\x7b"⟩ :: tokens) := by
  have hAccepts : (placeholder body).Accepts s e [] := by
    rw [Accepts, hRun]
    exact ⟨rfl, rfl⟩
  -- the placeholder is read alike whatever follows its brace
  obtain ⟨-, hEnds, hAny⟩ := sealed_placeholder hBody s e s [] hAccepts (by simp)
  rw [hRun] at hEnds hAny
  have hGoesOn : closesHere ('\x7b' :: (s ++ t)) = false := rfl
  -- its log ends with the closing brace, which goes together with nothing
  rw [List.cons_append, untilClose_run_of_ok hGoesOn (run_item_of_brace (hAny t)),
    Reply.after_of_apart]
  · rfl
  · intro n _ e' hLast e'' _
    obtain rfl : e = e' := by simpa using hLast
    exact Element.fuse?_of_not_text (.inl (not_isText_of_accepts hAccepts))
  · intro a hLast b _
    exact (hEnds.append_left [⟨.openBrace, "\x7b"⟩]).fuse?_eq_none a hLast b

/-- Elements that are read to the end of some text are logged. -/
theorem tokens_ne_nil_of_accepts {s : List Char} {m : Message}
    (h : (topElements body).Accepts s m []) (hNonempty : s ≠ []) :
    ((topElements body).run s).tokens ≠ [] := by
  have hTiles := (decided_untilClose (elementItem body false)
    (decided_element hBody false) s).tiles.joined_append_rest
  intro hNil
  -- the log and the rest make up the text, and both would be empty
  rw [hNil, h.2] at hTiles
  exact hNonempty hTiles.symm

/-- The last element of a text goes on as the text does: a placeholder has ended, and
text goes on as text. -/
theorem run_last_element {s : List Char} {e : Element} {tokens : List Token}
    (hGoesOn : closesHere s = false)
    (hRun : (elementItem body false).run s = ⟨.ok e, tokens, []⟩) (hLast : ¬['\''] <:+ s)
    (hClosed : Token.endsQuoted tokens = false) (t : List Char) :
    (topElements body).run (s ++ t) = ((topElements body).run t).after [e] tokens := by
  obtain ⟨c, u, rfl⟩ := exists_cons_of_goesOn hGoesOn
  cases hPlain : isSpecial false c with
  | false => exact run_last_text hPlain hRun hLast hClosed t
  | true =>
    -- what is special and opens a member is a brace, so the member is a placeholder
    obtain ⟨u, hOpen⟩ := exists_open_of_special hGoesOn (by simpa using hPlain)
    rw [hOpen] at hRun ⊢
    rcases hPlaceholder : (placeholder body).run u with ⟨result, log, rest⟩
    obtain ⟨rfl, rfl, rfl⟩ :=
      Reply.mk.inj ((run_item_of_brace hPlaceholder).symm.trans hRun)
    exact run_last_placeholder hBody hPlaceholder t

/-- An element after which the list goes on is read as it was, whatever is added. -/
theorem run_element_before {s u : List Char} {e : Element}
    (hItem : (elementItem body false).Accepts s e u) (hMore : u ≠ []) (t : List Char) :
    (elementItem body false).run (s ++ t) =
        ⟨.ok e, ((elementItem body false).run s).tokens, u ++ t⟩ ∧ u <:+ s := by
  have hDecided : (elementItem body false).toReader.DecidedAt Exempt s :=
    decided_element hBody false s
  have hSplit := hDecided.tiles.joined_append_rest
  rw [hItem.2] at hSplit
  refine ⟨?_, _, hSplit⟩
  -- the character after the element is still the one that was there
  have hHead : (u ++ t).head? = u.head? := List.head?_append_of_ne_nil u hMore
  have hRun := hDecided.run_of_accepts hItem hSplit hHead
  rwa [← List.append_assoc, hSplit] at hRun

/-- **Elements come after elements.** Where the elements of a text reach to its end, and
its quoting has come to rest, those of a longer text are fused from its elements and from
those of what is added. -/
theorem run_elements_append {s : List Char} {m : Message}
    (hAccepts : (topElements body).Accepts s m []) (hLast : ¬['\''] <:+ s)
    (hClosed : Token.endsQuoted ((topElements body).run s).tokens = false) (t : List Char) :
    (topElements body).run (s ++ t) =
      ((topElements body).run t).after m ((topElements body).run s).tokens := by
  -- by induction on the elements; only the last one sees what is added
  induction s using untilClose_induction (elementItem body false) generalizing m with
  | step s ih =>
    rcases accepts_untilClose.mp hAccepts with ⟨hEnds, rfl, rfl⟩ |
      ⟨hGoesOn, e, u, m', hItem, hMore, rfl⟩
    · rw [untilClose_run_of_close hEnds, List.nil_append, Reply.after_nil]
    rw [untilClose_run_of_ok hGoesOn hItem.run_eq] at hClosed ⊢
    rcases accepts_untilClose.mp hMore with ⟨hEnds, rfl, rfl⟩ |
      ⟨hGoesOn', e', u', m'', -, -, rfl⟩
    · -- the last element
      rw [untilClose_run_of_close hEnds] at hClosed ⊢
      simp only [List.append_nil] at hClosed ⊢
      exact run_last_element hBody hGoesOn hItem.run_eq hLast hClosed t
    · -- more elements follow, so the seam is theirs
      obtain ⟨c, v, hCons⟩ := exists_cons_of_goesOn hGoesOn'
      have hNonempty : u ≠ [] := by simp [hCons]
      have hLog : ((topElements body).run u).tokens ≠ [] :=
        tokens_ne_nil_of_accepts hBody hMore hNonempty
      obtain ⟨hHere, hSuffix⟩ := run_element_before hBody hItem hNonempty t
      have hGoesOnBoth : closesHere (s ++ t) = false := by
        obtain ⟨d, w, rfl⟩ := exists_cons_of_goesOn hGoesOn
        exact hGoesOn
      rw [Token.endsQuoted_append hLog] at hClosed
      have hOthers : (topElements body).run (u ++ t) =
          ((topElements body).run t).after (e' :: m'') ((topElements body).run u).tokens := by
        obtain rfl := hItem.2
        exact ih e hGoesOn hItem.1 hMore (fun hEnd => hLast (hEnd.trans hSuffix)) hClosed
      rw [untilClose_run_of_ok hGoesOnBoth hHere, hOthers, Reply.after_cons (by simp) hLog]
      rfl

end

end

/-- At the top level nothing has been opened that a closing brace could end. -/
theorem run_message {cx : Context} (hTop : cx.isTopLevel = true)
    (hPound : cx.poundIsNumber = false) (s : List Char) :
    (message cx).run s = ((topElements (subMessage cx)).run s).atTop := by
  rw [message_eq, elements, hPound]
  cases hResult : ((topElements (subMessage cx)).run s).result with
  | error fault =>
    rw [run_bind_of_error hResult, Reply.atTop, hResult]
    rfl
  | ok m =>
    rw [run_bind_of_ok hResult, run_peek_bind, Reply.atTop, hResult]
    -- the check after the elements is what the closing brace can fail
    by_cases hBrace : ((topElements (subMessage cx)).run s).rest.head? = some '\x7d'
    · simp [require, reject, hTop, hBrace, Reply.andThen, Except.bind]
    · simp [require, hTop, hBrace, Reply.andThen, Except.bind]

/-- A message at the top level is put in front of what is read after it. -/
theorem run_message_append {cx : Context} (hTop : cx.isTopLevel = true)
    (hPound : cx.poundIsNumber = false) {s : List Char} {m : Message}
    (hAccepts : (message cx).Accepts s m []) (hLast : ¬['\''] <:+ s)
    (hClosed : Token.endsQuoted ((message cx).run s).tokens = false) (t : List Char) :
    (message cx).run (s ++ t) =
      ((message cx).run t).after m ((message cx).run s).tokens := by
  rw [message_eq, accepts_elements, hPound] at hAccepts
  simp only [run_message hTop hPound] at hClosed ⊢
  rw [run_elements_append (decided_subMessage cx) hAccepts.1 hLast hClosed,
    Reply.atTop_after]
  rfl

end Grammar

/-! ## Whole parses -/

/-- Lists that are fused cover what both cover. -/
theorem Token.joined_fused (log more : List Token) :
    Token.joined (Token.fused log more) = Token.joined log ++ Token.joined more := by
  rcases log.eq_nil_or_concat' with rfl | ⟨before, a, rfl⟩
  · rfl
  · rw [fused, joinSeam_append (by simp), joined_append, joined_append, List.append_assoc]
    congr 1
    -- two tokens that are fused cover as much as before
    cases more with
    | nil => simp [joinSeam]
    | cons b more =>
      by_cases hBoth : a.kind = .text ∧ b.kind = .text <;>
        simp [joinSeam, fuse?, hBoth, joined]

/-- What is said about a violation depends on the place only through the character that
stands there, apart from the place itself. -/
theorem Violation.diagnostic_of_found (cause : Violation) {c c' : Cursor}
    (hFound : c.found = c'.found) :
    cause.diagnostic c' =
      { cause.diagnostic c with span := (cause.diagnostic c').span } := by
  cases cause <;> simp [Violation.diagnostic, Diagnostic.expectedToken,
    Diagnostic.unexpectedToken, Diagnostic.missingOther, Diagnostic.nestingDepthExceeded,
    Diagnostic.offsetOutOfRange, hFound]

namespace Parser

/-- The reply to two patterns in a row is the second reply with the first tree and log in front. -/
theorem reply_append {p : Parser} {s : String} {m : Message}
    (hResult : (p.reply s).result = .ok m) (hLast : ¬['\''] <:+ s.toList)
    (hClosed : Token.endsQuoted (p.reply s).tokens = false) (t : String) :
    p.reply (s ++ t) = (p.reply t).after m (p.reply s).tokens := by
  rw [reply, String.toList_append]
  exact Grammar.run_message_append rfl rfl ⟨hResult, reply_rest_of_ok hResult⟩ hLast hClosed
    t.toList

/-- The cursor stops in front of the text that is not read. -/
theorem rest_stoppedAt (p : Parser) (s : String) :
    (p.stoppedAt s).rest = (p.reply s).rest := by
  have hTiles := (p.reply_tiles s).joined_append_rest
  show s.toList.drop (p.stoppedAt s).pos = _
  rw [← hTiles]
  exact List.drop_left' rfl

/-- What a parse of a text gives is the reply to the text. -/
theorem parseInto_text {p : Parser} (hLength : p.maxLength ≤ 0) (s : String) :
    p.parseInto (.text s) [] =
      ((p.reply s).result.mapError (Failure.ofFault (p.stoppedAt s)), (p.reply s).tokens) := by
  have hShort :
      ¬(0 < p.maxLength ∧ p.maxLength < (PatternValue.text s).toText.length) := by
    rintro ⟨hLimited, -⟩
    omega
  exact parseInto_of_short hShort []

/-- A parse that succeeds shows the reply of the grammar. -/
theorem reply_of_parseInto_eq_ok {p : Parser} (hLength : p.maxLength ≤ 0) {s : String}
    {m : Message} {log : List Token} (h : p.parseInto (.text s) [] = (.ok m, log)) :
    (p.reply s).result = .ok m ∧ (p.reply s).tokens = log := by
  rw [parseInto_text hLength, Prod.mk.injEq] at h
  obtain ⟨hResult, hLog⟩ := h
  cases hReply : (p.reply s).result with
  | ok n =>
    rw [hReply] at hResult
    exact ⟨by simpa [Except.mapError] using hResult, hLog⟩
  | error fault =>
    rw [hReply] at hResult
    simp [Except.mapError] at hResult

/-- A parse that is rejected shows the reply of the grammar, up to where it stopped. -/
theorem reply_of_parseInto_eq_rejected {p : Parser} (hLength : p.maxLength ≤ 0) {s : String}
    {e : SyntaxError} {log : List Token}
    (h : p.parseInto (.text s) [] = (.error (.rejected e), log)) :
    ∃ cause, (p.reply s).result = .error (.violation cause) ∧
      e = .ofViolation cause (p.stoppedAt s) ∧ (p.reply s).tokens = log := by
  rw [parseInto_text hLength, Prod.mk.injEq] at h
  obtain ⟨hResult, hLog⟩ := h
  cases hReply : (p.reply s).result with
  | ok n =>
    -- a success is not rejected
    rw [hReply] at hResult
    simp [Except.mapError] at hResult
  | error fault =>
    rw [hReply] at hResult
    obtain ⟨cause, rfl, rfl⟩ :=
      Failure.ofFault_eq_rejected_iff.mp (Except.error.inj hResult)
    exact ⟨cause, rfl, rfl, hLog⟩

/-- **Parsing takes one pattern after another.** Without a limit on the length of patterns,
let a pattern parse that does not end with an apostrophe, nor within a quoted run. Put in
front of a pattern that parses, it gives the elements of both and the tokens of both, with
text fused where text meets text. Put in front of a pattern that is rejected, it moves the
error behind itself, and changes nothing else that is said about it. -/
theorem parseInto_append (p : Parser) (hLength : p.maxLength ≤ 0) (s : String) (m : Message)
    (log : List Token) (hParse : p.parseInto (.text s) [] = (.ok m, log))
    (hLast : ¬['\''] <:+ s.toList) (hClosed : Token.endsQuoted log = false) (t : String) :
    (∀ n more, p.parseInto (.text t) [] = (.ok n, more) →
      p.parseInto (.text (s ++ t)) [] = (.ok (m.fused n), Token.fused log more)) ∧
    ∀ e more, p.parseInto (.text t) [] = (.error (.rejected e), more) →
      ∃ e', p.parseInto (.text (s ++ t)) [] =
          (.error (.rejected e'), Token.fused log more) ∧
        e'.offset = s.length + e.offset ∧ e'.source = s ++ t ∧
        e'.diagnostic = { e.diagnostic with span := e'.diagnostic.span } := by
  -- the reply to both patterns is known from the two replies
  obtain ⟨hFirst, rfl⟩ := reply_of_parseInto_eq_ok hLength hParse
  have hReply := reply_append hFirst hLast hClosed t
  have hBoth : p.parseInto (.text (s ++ t)) [] = _ := parseInto_text hLength (s ++ t)
  rw [hReply] at hBoth
  refine ⟨?_, ?_⟩
  · intro n more hSecond
    obtain ⟨hOk, rfl⟩ := reply_of_parseInto_eq_ok hLength hSecond
    rw [hBoth, Reply.after, hOk]
    rfl
  · intro e more hSecond
    obtain ⟨cause, hError, rfl, rfl⟩ := reply_of_parseInto_eq_rejected hLength hSecond
    refine ⟨.ofViolation cause (p.stoppedAt (s ++ t)), ?_, ?_, rfl, ?_⟩
    · rw [hBoth, Reply.after, hError]
      rfl
    · -- the first pattern is read to its end
      have hTiles := (p.reply_tiles s).joined_append_rest
      rw [reply_rest_of_ok hFirst, List.append_nil] at hTiles
      rw [SyntaxError.offset_ofViolation, SyntaxError.offset_ofViolation, stoppedAt,
        stoppedAt, hReply, Reply.after]
      simp only [Token.joined_fused, hTiles, List.length_append, String.length_toList]
    · -- what is found there is the head of what the second pattern left
      refine cause.diagnostic_of_found ?_
      rw [Cursor.found, Cursor.found, Cursor.current?, Cursor.current?, rest_stoppedAt,
        rest_stoppedAt, hReply]
      rfl

/-- Text meets text, in front of a pattern that parses and in front of one that is
rejected at its end. -/
theorem parseInto_append_of_text :
    (Parser.mk 0 1).parseInto (.text "\x7bn\x7d it''s") [] =
        (.ok [.simple "n", .text " it's"],
          [⟨.openBrace, "\x7b"⟩, ⟨.id, "n"⟩, ⟨.closeBrace, "\x7d"⟩, ⟨.text, " it''s"⟩]) ∧
      ¬['\''] <:+ "\x7bn\x7d it''s".toList ∧
      Token.endsQuoted [⟨.openBrace, "\x7b"⟩, ⟨.id, "n"⟩, ⟨.closeBrace, "\x7d"⟩,
        ⟨.text, " it''s"⟩] = false ∧
      (Parser.mk 0 1).parseInto (.text ("\x7bn\x7d it''s" ++ " '\x7b'")) [] =
        (.ok (Message.fused [.simple "n", .text " it's"] [.text " \x7b"]),
          Token.fused [⟨.openBrace, "\x7b"⟩, ⟨.id, "n"⟩, ⟨.closeBrace, "\x7d"⟩,
            ⟨.text, " it''s"⟩] [⟨.text, " '\x7b'"⟩]) ∧
      ∃ e', (Parser.mk 0 1).parseInto (.text ("\x7bn\x7d it''s" ++ "!\x7d")) [] =
          (.error (.rejected e'), Token.fused [⟨.openBrace, "\x7b"⟩, ⟨.id, "n"⟩,
            ⟨.closeBrace, "\x7d"⟩, ⟨.text, " it''s"⟩] [⟨.text, "!"⟩]) ∧
        e'.offset = "\x7bn\x7d it''s".length +
          (SyntaxError.ofViolation .unexpected ⟨"!\x7d", 1⟩).offset ∧
        e'.source = "\x7bn\x7d it''s" ++ "!\x7d" ∧
        e'.diagnostic =
          { (SyntaxError.ofViolation .unexpected ⟨"!\x7d", 1⟩).diagnostic with
            span := e'.diagnostic.span } := by
  refine ⟨?first, ?last, ?closed,
    (parseInto_append ⟨0, 1⟩ (by decide) _ _ _ ?first ?last ?closed " '\x7b'").1 _ _ ?_,
    (parseInto_append ⟨0, 1⟩ (by decide) _ _ _ ?first ?last ?closed "!\x7d").2 _ _ ?_⟩
  all_goals decide +kernel

-- An apostrophe at the end would quote what follows, though both patterns parse.
example : (Parser.mk 0 1).parse (.text "'") = .ok [.text "'"] ∧
    (Parser.mk 0 1).parse (.text "\x7bn\x7d") = .ok [.simple "n"] ∧
    (Parser.mk 0 1).parse (.text ("'" ++ "\x7bn\x7d")) = .ok [.text "\x7bn\x7d"] := by
  decide +kernel

end Parser

end MessagePattern
