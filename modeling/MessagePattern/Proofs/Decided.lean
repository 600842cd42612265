import MessagePattern.Proofs.Lexemes
import MessagePattern.Proofs.Tiling

/-!
# Replies that are settled by what was read

A reader looks ahead in four places: after an apostrophe, for the keyword of an
offset clause, for the digits of an offset, and for the brace that ends a style.
Here are the readers for which nothing that they see beyond the next unread
character has a say in what they reply.

* `Dialect.scan_sourceOf_append` — a scan depends on the glyphs that it gives and on
  the next character;
* `Reader.DecidedAt`, `Reader.Decided` — so does the reply to a text, and so do all
  replies of a reader;
* `Reader.DecidedAt.bind` — one decided reader after another;
* `Exempt` — the errors that are left out, because more text could change them.
-/

namespace MessagePattern

/-! ## Scans -/

/-- A text that is put in front hides how what comes after it begins, or lets it show. -/
theorem head?_append_congr {x t t' : List Char} (hHead : t'.head? = t.head?) :
    (x ++ t').head? = (x ++ t).head? := by
  rw [List.head?_append, List.head?_append, hHead]

/-- The glyphs of a scan depend on the text that they cover and on the next
character. -/
theorem Dialect.scan_sourceOf_append (d : Dialect) (quoted : Bool) (s : List Char)
    {t' : List Char} (hHead : t'.head? = (d.scan quoted s).rest.head?) :
    d.scan quoted (Glyph.sourceOf (d.scan quoted s).glyphs ++ t') =
      ⟨(d.scan quoted s).glyphs, t'⟩ := by
  -- what is scanned after a glyph begins as it did before
  have hAfter : ∀ (quoted : Bool) (u : List Char),
      t'.head? = (d.scan quoted u).rest.head? →
      (Glyph.sourceOf (d.scan quoted u).glyphs ++ t').head? = u.head? := by
    intro quoted u hSame
    rw [head?_append_congr hSame, Stretch.source_append_rest]
  -- by induction on the scan: each glyph is found again, and so is the rest after it
  induction quoted, s using d.scan_induction with
  | nil quoted =>
    -- the old rest is empty, so the new one is
    rw [scan.eq_1] at hHead ⊢
    obtain rfl : t' = [] := List.head?_eq_none_iff.mp hHead
    exact scan.eq_1 d quoted
  | pair quoted t ih =>
    rw [d.scan_pair] at hHead ⊢
    show d.scan quoted ('\'' :: '\'' :: (Glyph.sourceOf (d.scan quoted t).glyphs ++ t')) =
      _
    rw [d.scan_pair, ih hHead]
    rfl
  | close t hNext ih =>
    rw [d.scan_close hNext] at hHead ⊢
    -- the apostrophe is closed by what begins like the text behind it
    show d.scan true ('\'' :: (Glyph.sourceOf (d.scan false t).glyphs ++ t')) = _
    rw [d.scan_close (by rw [hAfter false t hHead]; exact hNext), ih hHead]
    rfl
  | inside c t hNotQuote ih =>
    rw [d.scan_quoted_char hNotQuote] at hHead ⊢
    show d.scan true (c :: (Glyph.sourceOf (d.scan true t).glyphs ++ t')) = _
    rw [d.scan_quoted_char hNotQuote, ih hHead]
    rfl
  | opening c t hNotQuote hOpens ih =>
    -- what the apostrophe quotes is still there
    rw [d.scan_open hNotQuote hOpens] at hHead ⊢
    obtain ⟨u, hText⟩ := List.head?_eq_some_iff.mp (hAfter true (c :: t) hHead)
    have hSame := ih hHead
    rw [hText] at hSame
    show d.scan false ('\'' :: (Glyph.sourceOf (d.scan true (c :: t)).glyphs ++ t')) = _
    rw [hText, d.scan_open hNotQuote hOpens, hSame]
    rfl
  | lone t hLone ih =>
    rw [d.scan_lone hLone] at hHead ⊢
    -- the apostrophe is still alone
    show d.scan false ('\'' :: (Glyph.sourceOf (d.scan false t).glyphs ++ t')) = _
    rw [d.scan_lone (by rw [hAfter false t hHead]; exact hLone), ih hHead]
    rfl
  | stop c t hNotQuote hStops =>
    -- the text stops at the same character
    rw [d.scan_unquoted hNotQuote, if_pos hStops] at hHead ⊢
    obtain ⟨u, rfl⟩ := List.head?_eq_some_iff.mp hHead
    show d.scan false (c :: u) = _
    rw [d.scan_unquoted hNotQuote, if_pos hStops]
  | plain c t hNotQuote hGoesOn ih =>
    rw [d.scan_plain hNotQuote hGoesOn] at hHead ⊢
    show d.scan false (c :: (Glyph.sourceOf (d.scan false t).glyphs ++ t')) = _
    rw [d.scan_plain hNotQuote hGoesOn, ih hHead]
    rfl

/-- A run before a text that begins as its rest did is a run again. -/
theorem Declared.Run.congr {test : Char → Bool} {s run rest t' : List Char}
    (h : Declared.Run test s run rest) (hHead : t'.head? = rest.head?) :
    Declared.Run test (run ++ t') run t' := by
  refine ⟨rfl, h.inside, fun c hc => ?_⟩
  rw [hHead] at hc
  exact h.outside c hc

/-! ## Decided replies -/

/-- A log and a fault that a promise leaves out. -/
abbrev Exemption := List Token → Fault → Prop

namespace Reader

open Declared

variable {α β : Type}

/-- The reply to a text is settled by what was read and by the next character,
unless the reply is exempt. -/
structure DecidedAt (p : Reader α) (E : Exemption) (s : List Char) : Prop where
  tiles : (p.run s).Tiles s
  keeps : (∀ fault, (p.run s).result = .error fault → ¬E (p.run s).tokens fault) →
    ∀ t', t'.head? = (p.run s).rest.head? →
      p.run (Token.joined (p.run s).tokens ++ t') =
        ⟨(p.run s).result, (p.run s).tokens, t'⟩

/-- Every reply that is not exempt is settled by what was read and by the next
character. -/
def Decided (p : Reader α) (E : Exemption) : Prop := ∀ s, p.DecidedAt E s

/-- What was read, before a text that begins as the rest did, begins as the whole
text did. -/
theorem head?_joined_append {r : Reply α} {s t' : List Char} (hTiles : r.Tiles s)
    (hHead : t'.head? = r.rest.head?) :
    (Token.joined r.tokens ++ t').head? = s.head? := by
  rw [head?_append_congr hHead, hTiles.joined_append_rest]

/-- What a reader has read is what its tokens make up. -/
theorem joined_eq_of_tiles {r : Reply α} {s x : List Char} (hTiles : r.Tiles s)
    (hSplit : x ++ r.rest = s) : Token.joined r.tokens = x :=
  List.append_cancel_right (hTiles.joined_append_rest.trans hSplit.symm)

/-- Fewer promises are kept, too. -/
theorem DecidedAt.mono {p : Reader α} {E E' : Exemption} {s : List Char}
    (h : p.DecidedAt E s)
    (hLess : ∀ tokens fault, E tokens fault → E' tokens fault) : p.DecidedAt E' s where
  tiles := h.tiles
  keeps hNotExempt := h.keeps fun fault hFault hExempt =>
    hNotExempt fault hFault (hLess _ fault hExempt)

/-- A reader that does the same as a decided one, both on the text and on the texts
that are read as far, is decided. -/
theorem DecidedAt.of_run_eq {p q : Reader α} {E : Exemption} {s : List Char}
    (h : q.DecidedAt E s) (hRun : p.run s = q.run s)
    (hSame : (∀ fault, (q.run s).result = .error fault → ¬E (q.run s).tokens fault) →
      ∀ t', t'.head? = (q.run s).rest.head? →
        p.run (Token.joined (q.run s).tokens ++ t') =
          q.run (Token.joined (q.run s).tokens ++ t')) : p.DecidedAt E s := by
  refine ⟨?_, ?_⟩
  · rw [hRun]
    exact h.tiles
  · rw [hRun]
    intro hNotExempt t' hHead
    rw [hSame hNotExempt t' hHead, h.keeps hNotExempt t' hHead]

/-- One reader after another is decided if both are. The exemptions of the second
are taken over with the log of the first in front. -/
theorem DecidedAt.bind {p : Reader α} {next : α → Reader β} {E₁ E : Exemption}
    {E₂ : α → Exemption} {s : List Char} (hFirst : p.DecidedAt E₁ s)
    (hNext : ∀ a, (p.run s).result = .ok a → (next a).DecidedAt (E₂ a) (p.run s).rest)
    (hStop : ∀ tokens fault, E₁ tokens fault → E tokens fault)
    (hGoOn : ∀ a tokens fault, (p.run s).result = .ok a → E₂ a tokens fault →
      E ((p.run s).tokens ++ tokens) fault) : (p >>= next).DecidedAt E s := by
  refine ⟨tiles_bind_at hFirst.tiles fun a hOk => (hNext a hOk).tiles, ?_⟩
  cases hResult : (p.run s).result with
  | error fault =>
    -- the second reader does not run, here or on the other text
    rw [run_bind_of_error hResult]
    intro hNotExempt t' hHead
    have hSame := hFirst.keeps (fun found hFound hExempt => by
      obtain rfl : fault = found := by simpa [hResult] using hFound
      exact hNotExempt fault rfl (hStop _ _ hExempt)) t' hHead
    rw [run_bind_of_error (by rw [hSame]; exact hResult), hSame]
  | ok a =>
    rw [run_bind_of_ok hResult]
    intro hNotExempt t' hHead
    -- the second reader is given the rest of the first
    have hSecond := (hNext a hResult).keeps
      (fun fault hFault hExempt => hNotExempt fault hFault (hGoOn a _ _ hResult hExempt))
      t' hHead
    -- what the second reader is given begins as it did before
    have hSame := hFirst.keeps (by simp [hResult]) _
      (head?_joined_append (hNext a hResult).tiles hHead)
    rw [Token.joined_append, List.append_assoc,
      run_bind_of_ok (by rw [hSame]; exact hResult), hSame]
    simp only
    rw [hSecond]

/-! ### Single steps -/

variable {E : Exemption}

/-- A reader that takes nothing is decided if it looks at the next character at most. -/
theorem decided_of_run {p : Reader α} {s : List Char} {result : Except Fault α}
    (hRun : p.run s = ⟨result, [], s⟩)
    (hSame : ∀ t', t'.head? = s.head? → p.run t' = ⟨result, [], t'⟩) :
    p.DecidedAt E s := by
  refine ⟨?_, ?_⟩
  · rw [hRun]
    exact ⟨by simp, rfl⟩
  · rw [hRun]
    intro _ t' hHead
    exact hSame t' hHead

theorem decided_pure (a : α) : (pure a : Reader α).Decided E :=
  fun _ => decided_of_run rfl fun _ _ => rfl

theorem decided_fail (fault : Fault) : (fail fault : Reader α).Decided E :=
  fun _ => decided_of_run rfl fun _ _ => rfl

/-- A node is given or refused without a look at the text. -/
theorem decided_checked (node : Except NodeError α) : (checked node).Decided E := by
  cases node with
  | ok a => exact decided_pure a
  | error cause => exact decided_fail _

theorem decided_peek : peek.Decided E :=
  fun s => decided_of_run (run_peek s) fun t' hHead => by rw [run_peek, hHead]

theorem decided_require (condition : Bool) (cause : Violation) :
    (require condition cause).Decided E := by
  cases condition with
  | true => exact decided_pure ()
  | false => exact decided_fail _

theorem run_take_cons (kind : Token.Kind) (c : Char) (t : List Char) :
    (take kind).run (c :: t) = ⟨.ok (), [⟨kind, String.ofList [c]⟩], t⟩ := by
  simp [take, Reply.andThen, lexeme]

/-- What is taken is one character, and at the end of the text it is missing. -/
theorem decided_take (kind : Token.Kind) : (take kind).Decided E := by
  intro s
  cases s with
  | nil =>
    -- at the end, and so is the new text
    refine decided_of_run rfl fun t' hHead => ?_
    obtain rfl : t' = [] := List.head?_eq_none_iff.mp hHead
    rfl
  | cons c t =>
    refine ⟨tiles_take kind (c :: t), fun _ t' _ => ?_⟩
    rw [run_take_cons]
    simp only [Token.joined, List.flatMap_cons, List.flatMap_nil, String.toList_ofList,
      List.append_nil]
    exact run_take_cons kind c t'

/-- A run of characters is settled, since the next character is not one of them. -/
theorem decided_run (kind : Token.Kind) (test : Char → Bool) :
    (lexeme kind (widthWhile test)).Decided E := by
  intro s
  refine ⟨tiles_lexeme _ _ s, fun _ t' hHead => ?_⟩
  -- the run is told by the text alone
  have hRun : ∀ u, (lexeme kind (widthWhile test)).run u =
      ⟨.ok (String.ofList (u.takeWhile test)),
        if (String.ofList (u.takeWhile test)).isEmpty then []
        else [⟨kind, String.ofList (u.takeWhile test)⟩], u.dropWhile test⟩ := fun u => by
    simp only [lexeme, (take_widthWhile test u).1, (take_widthWhile test u).2]
  have hRead : Token.joined ((lexeme kind (widthWhile test)).run s).tokens =
      s.takeWhile test := by
    refine joined_eq_of_tiles (tiles_lexeme _ _ s) ?_
    rw [hRun s]
    exact List.takeWhile_append_dropWhile
  rw [hRun s] at hHead
  obtain ⟨hTake, hDrop⟩ := run_iff.mp ((run_takeWhile test s).congr hHead)
  rw [hRead, hRun, hRun s, ← hTake, ← hDrop]

/-- Text is read by a scan, and an empty one is not logged. -/
theorem run_text {poundIsNumber : Bool} {s : List Char} {stretch : Stretch}
    (hScan : (Dialect.text poundIsNumber).scan false s = stretch) :
    (text poundIsNumber).run s =
      ⟨.ok (String.ofList (Glyph.valueOf stretch.glyphs)),
        if (String.ofList (Glyph.sourceOf stretch.glyphs)).isEmpty then []
        else [⟨.text, String.ofList (Glyph.sourceOf stretch.glyphs)⟩], stretch.rest⟩ := by
  -- the lexeme is as long as the source of the scan
  have hSource := Stretch.source_append_rest (Dialect.text poundIsNumber) false s
  rw [hScan] at hSource
  have hTake : s.take (Glyph.sourceOf stretch.glyphs).length =
      Glyph.sourceOf stretch.glyphs := by
    rw [← hSource, List.take_left]
  have hDrop : s.drop (Glyph.sourceOf stretch.glyphs).length = stretch.rest := by
    rw [← hSource, List.drop_left]
  simp only [text, run_bind, run_lookAhead, run_pure, Reply.andThen, lexeme, hScan, hTake,
    hDrop, List.nil_append, List.append_nil]

theorem decided_text (poundIsNumber : Bool) : (text poundIsNumber).Decided E := by
  intro s
  refine ⟨tiles_text poundIsNumber s, fun _ t' hHead => ?_⟩
  have hSource := Stretch.source_append_rest (Dialect.text poundIsNumber) false s
  have hRead : Token.joined ((text poundIsNumber).run s).tokens =
      Glyph.sourceOf ((Dialect.text poundIsNumber).scan false s).glyphs := by
    refine joined_eq_of_tiles (tiles_text poundIsNumber s) ?_
    rw [run_text rfl]
    exact hSource
  rw [run_text rfl] at hHead
  rw [hRead, run_text (Dialect.scan_sourceOf_append _ false s hHead)]
  conv => rhs; rw [run_text rfl]

/-! ## Errors that are not decided -/

end Reader

/-- An argument type of one's own: not built in, and not bound to take cases. -/
def isOwnType (type : String) : Bool := !takesCases type && !simpleTypes.contains type

/-- The kinds of token that may stand between an argument type and the first brace
after it. -/
def Token.Kind.isInner (kind : Token.Kind) : Bool :=
    [.space, .comma, .selector].contains kind

/-- The faults of a list of cases that has not taken its first brace. -/
def Unopened : Exemption := fun tokens fault =>
  (∀ token ∈ tokens, token.kind.isInner = true) ∧
    (fault = .violation (.expected .selector) ∨
      fault = .violation (.expected .subMessageOpen))

/-- The faults that more text could change: an offset with too many digits, and
those of a list of cases that a type of one's own was taken to have, before the list
has taken its first brace. Nodes that are refused are no errors of the pattern. -/
inductive Exempt : Exemption
  | invalidNode {tokens cause} : Exempt tokens (.invalidNode cause)
  | offset {tokens maxDigits} : Exempt tokens (.violation (.offsetOutOfRange maxDigits))
  | unopened {before type inner fault} : isOwnType type = true → Unopened inner fault →
      Exempt (before ++ ⟨.type, type⟩ :: inner) fault

/-- Whether a fault is exempt is seen at the end of the log. -/
theorem Exempt.append_left {tokens : List Token} {fault : Fault} (h : Exempt tokens fault)
    (before : List Token) : Exempt (before ++ tokens) fault := by
  cases h with
  | invalidNode => exact .invalidNode
  | offset => exact .offset
  | unopened hOwn hUnopened =>
    rw [← List.append_assoc]
    exact .unopened hOwn hUnopened

/-- The faults of a list without a brace are those behind what may stand in front of it. -/
theorem Unopened.append_left {before tokens : List Token} {fault : Fault}
    (h : Unopened tokens fault) (hInner : ∀ token ∈ before, token.kind.isInner = true) :
    Unopened (before ++ tokens) fault := by
  refine ⟨fun token hToken => ?_, h.2⟩
  rcases List.mem_append.mp hToken with hBefore | hAfter
  · exact hInner token hBefore
  · exact h.1 token hAfter

namespace Reader

open Declared

variable {α β : Type}

/-- What is exempt behind a first reader is exempt with it, so two decided readers are decided one after
the other. -/
theorem DecidedAt.andThen {p : Reader α} {next : α → Reader β} {s : List Char}
    (hFirst : p.DecidedAt Exempt s)
    (hNext : ∀ a, (p.run s).result = .ok a → (next a).DecidedAt Exempt (p.run s).rest) :
    (p >>= next).DecidedAt Exempt s :=
  hFirst.bind hNext (fun _ _ h => h) fun _ _ _ _ h => h.append_left _

theorem Decided.andThen {p : Reader α} {next : α → Reader β} (hFirst : p.Decided Exempt)
    (hNext : ∀ a, (next a).Decided Exempt) : (p >>= next).Decided Exempt :=
  fun s => (hFirst s).andThen fun a _ => hNext a _

theorem decided_space : space.Decided Exempt :=
  (decided_run _ _).andThen fun _ => decided_pure ()

theorem decided_name (kind : Token.Kind) (what : Expectation) :
    (name kind what).Decided Exempt :=
  (decided_run _ _).andThen fun _ => (decided_require _ _).andThen fun _ => decided_pure _

theorem decided_demand (c : Char) (kind : Token.Kind) (what : Expectation) :
    (demand c kind what).Decided Exempt :=
  decided_peek.andThen fun _ => (decided_require _ _).andThen fun _ => decided_take kind

/-- The reader logs only what may stand between an argument type and the first brace
after it. -/
def LogsInner (p : Reader α) : Prop :=
    ∀ s, ∀ token ∈ (p.run s).tokens, token.kind.isInner = true

/-- Two readers log what may stand in front of the first brace if both do. -/
theorem LogsInner.bind {p : Reader α} {next : α → Reader β} (hFirst : p.LogsInner)
    (hNext : ∀ a, (next a).LogsInner) : (p >>= next).LogsInner := by
  intro s token hToken
  cases hResult : (p.run s).result with
  | ok a =>
    rw [run_bind_of_ok hResult] at hToken
    rcases List.mem_append.mp hToken with hLeft | hRight
    · exact hFirst s token hLeft
    · exact hNext a _ token hRight
  | error fault =>
    rw [run_bind_of_error hResult] at hToken
    exact hFirst s token hToken

theorem logsInner_pure (a : α) : (pure a : Reader α).LogsInner := by
  intro s token hToken
  simp at hToken

theorem logsInner_require (condition : Bool) (cause : Violation) :
    (require condition cause).LogsInner := by
  intro s token hToken
  cases condition <;> simp [require, reject] at hToken

theorem logsInner_lexeme {kind : Token.Kind} (hKind : kind.isInner = true)
    (width : List Char → Nat) : (lexeme kind width).LogsInner := by
  intro s token hToken
  simp only [lexeme] at hToken
  split at hToken
  · simp at hToken
  · obtain rfl := List.mem_singleton.mp hToken
    exact hKind

theorem logsInner_peek : peek.LogsInner := by
  intro s token hToken
  simp at hToken

theorem logsInner_take {kind : Token.Kind} (hKind : kind.isInner = true) :
    (take kind).LogsInner := by
  intro s
  cases s with
  | nil => exact fun token hToken => by simp [take, Reply.andThen] at hToken
  | cons c t =>
    rw [run_take_cons]
    intro token hToken
    obtain rfl := List.mem_singleton.mp hToken
    exact hKind

theorem logsInner_space : space.LogsInner :=
  (logsInner_lexeme (by decide) _).bind fun _ => logsInner_pure ()

theorem logsInner_name {kind : Token.Kind} (hKind : kind.isInner = true)
    (what : Expectation) : (name kind what).LogsInner :=
  (logsInner_lexeme hKind _).bind fun _ => (logsInner_require _ _).bind fun _ =>
    logsInner_pure _

/-- A word that is read is logged as one token. -/
theorem tokens_run_name {kind : Token.Kind} {what : Expectation} {s t : List Char}
    {w : String} (h : (name kind what).Accepts s w t) :
    ((name kind what).run s).tokens = [⟨kind, w⟩] := by
  have hSome : w.isEmpty = false := by simpa using (accepts_name.mp h).2
  obtain ⟨w', u, hWord, hRest⟩ := accepts_bind.mp h
  obtain ⟨-, hPure⟩ := accepts_require_bind.mp hRest
  obtain ⟨rfl, -⟩ := accepts_pure.mp hPure
  have hLog : ((word kind).run s).tokens = [⟨kind, w'⟩] := by
    obtain rfl := (accepts_lexeme.mp hWord).1
    exact if_neg (by rw [hSome]; decide)
  rw [name, run_bind_of_ok hWord.1, hLog, hSome]
  rfl

/-! ### Lists of members -/

/-- Whether a list ends is seen at the next character. -/
theorem closesHere_congr {s t : List Char} (hHead : t.head? = s.head?) :
    closesHere t = closesHere s := by
  cases s with
  | nil =>
    obtain rfl : t = [] := List.head?_eq_none_iff.mp hHead
    rfl
  | cons c u =>
    obtain ⟨u', rfl⟩ := List.head?_eq_some_iff.mp hHead
    rfl

/-- A list is decided where its members are. -/
theorem decided_untilClose (item : Item α) (hItem : item.toReader.Decided Exempt) :
    (untilClose item).Decided Exempt := by
  intro s
  induction s using untilClose_induction item with
  | step s ih =>
    by_cases hEnds : closesHere s = true
    · -- whether the list ends is seen at the next character
      refine decided_of_run (by rw [untilClose_run, if_pos hEnds]) fun t' hHead => ?_
      rw [untilClose_run, if_pos (by rw [closesHere_congr hHead, hEnds])]
    · -- the first member is settled, and the list after it by induction
      have hStep : (item.toReader >>= fun a => untilClose item >>= fun l =>
          pure (a :: l)).DecidedAt
          Exempt s := by
        refine (hItem s).andThen fun a hOk => ?_
        exact (ih a (by simpa using hEnds) hOk).andThen fun l _ => decided_pure (a :: l) _
      refine hStep.of_run_eq (by rw [untilClose_run, if_neg hEnds]) fun _ t' hHead => ?_
      rw [untilClose_run, if_neg]
      rwa [closesHere_congr (head?_joined_append hStep.tiles hHead)]

/-! ### Offset clauses -/

/-- Digits are decided by the character that ends them, but for those that are too many. -/
theorem decided_offsetDigits : offsetDigits.Decided Exempt := by
  intro s
  have hDigits := run_takeWhile Char.isDigit s
  by_cases hNone : s.takeWhile Char.isDigit = []
  · -- no digits, and none in front of the new rest
    refine decided_of_run (run_offsetDigits_of_none hNone) fun t' hHead => ?_
    rw [hNone] at hDigits
    have hRest : t'.head? = (s.dropWhile Char.isDigit).head? := by
      rw [hHead, ← List.nil_append (s.dropWhile Char.isDigit), ← hDigits.split]
    exact run_offsetDigits_of_none (run_iff.mp (hDigits.congr hRest)).1.symm
  · cases hRead : Numeral.read? (s.takeWhile Char.isDigit) with
    | none =>
      -- more digits could follow, but this error is exempt
      have hRun := run_offsetDigits_of_long hRead
      refine ⟨?_, ?_⟩
      · rw [hRun]
        exact ⟨by simp, rfl⟩
      · rw [hRun]
        intro hNotExempt
        exact absurd .offset (hNotExempt _ rfl)
    | some n =>
      have hRun := run_offsetDigits_of_short hNone hRead
      -- digits that are not too many, and none is added
      have hRead' : Token.joined [⟨.number, String.ofList (s.takeWhile Char.isDigit)⟩] =
          s.takeWhile Char.isDigit := by simp [Token.joined]
      refine ⟨?_, ?_⟩
      · rw [hRun]
        exact ⟨by simpa using hNone, by rw [hRead', List.takeWhile_append_dropWhile]⟩
      · rw [hRun]
        intro _ t' hHead
        obtain ⟨hTake, hDrop⟩ := run_iff.mp (hDigits.congr hHead)
        rw [hRead']
        rw [hTake] at hNone hRead
        rw [run_offsetDigits_of_short hNone hRead, ← hTake, ← hDrop]

theorem decided_offsetNumber : offsetNumber.Decided Exempt :=
  decided_space.andThen fun _ => decided_offsetDigits

end Reader

end MessagePattern
