import MessagePattern.Proofs.Agreement

/-!
# Trees without blanks

The tree of a pattern can be seen from its log with the blanks left out. Production by
production, two runs whose logs are equal apart from blanks give equal values, for every
value is that of a token. The parts of a placeholder are told by the closing brace or the
comma in front of them, a style and cases of one's own by their first tokens, and the end of
a message by the brace that follows it.

* `StyleScan.scan_source_append`, `StyleScan.ofSource_source_append` — what may follow a
  style;
* `StyleScan.scan_source` — a style is scanned alike by itself;
* `Grammar.agree_argument`, `Grammar.agree_placeholder` — placeholders agree;
* `Grammar.agree_message` — messages agree.
-/

namespace MessagePattern

/-! ## Styles

A style is scanned where blanks and a brace follow it. It is scanned alike in front of other
blanks, and by itself. -/

/-- An unquoted character is met outside of quoted runs. -/
theorem Dialect.quotedAfter_of_bare (d : Dialect) {inRun : Bool} {s : List Char}
    {gs hs : List Glyph} {c : Char} (h : (d.scan inRun s).glyphs = gs ++ .bare c :: hs) :
    Glyph.quotedAfter inRun gs = false := by
  induction gs generalizing inRun s with
  | nil =>
    obtain ⟨inRun', t, -, -, -, hBare, -⟩ := d.scan_step h
    exact hBare c rfl
  | cons g gs ih =>
    obtain ⟨inRun', t, -, hStep, hQuoted, -, -⟩ := d.scan_step h
    rw [hStep] at h
    rw [hQuoted]
    exact ih (List.cons.inj h).2

namespace StyleScan

/-- What comes after a style may be replaced by any text that does not begin with an
apostrophe. -/
theorem scan_source_append {s t u : List Char} {c : Char}
    (hSplit : (ofSource s).source ++ c :: t = s) (hNoQuote : u.head? ≠ some '\'') :
    Dialect.style.scan false ((ofSource s).source ++ u) =
      ⟨(ofSource s).glyphs ++ (Dialect.style.scan false u).glyphs,
        (Dialect.style.scan false u).rest⟩ := by
  obtain ⟨blanks, hGlyphs, hBlanks, -⟩ :=
    Glyph.exists_blanks (Dialect.style.scan false s).glyphs
  have hTrimmed : Glyph.trimmed (Dialect.style.scan false s).glyphs = (ofSource s).glyphs := rfl
  rw [hTrimmed] at hGlyphs
  have hSource := Stretch.source_append_rest Dialect.style false s
  -- what is left of the scan is the blanks after the style and what stopped it
  have hAfter : Glyph.sourceOf blanks ++ (Dialect.style.scan false s).rest = c :: t := by
    rw [hGlyphs, Glyph.sourceOf_append, List.append_assoc] at hSource
    exact List.append_cancel_left (hSource.trans hSplit.symm)
  -- the style is followed by an unquoted blank, or by the brace that ends it
  have hClosed : Glyph.quotedAfter false (ofSource s).glyphs = false ∧ c ≠ '\'' := by
    cases blanks with
    | nil =>
      obtain ⟨hClosed, hNotQuote, -⟩ := Dialect.style.scan_rest_eq_cons hAfter
      rw [List.append_nil] at hGlyphs
      rw [hGlyphs] at hClosed
      exact ⟨hClosed, hNotQuote⟩
    | cons g gs =>
      have hBlank : g.isBlank = true :=
        Glyph.trimmed_eq_nil_iff.mp hBlanks g (List.mem_cons_self ..)
      cases g with
      | bare b =>
        obtain ⟨rfl, -⟩ := List.cons.inj hAfter
        exact ⟨Dialect.style.quotedAfter_of_bare hGlyphs,
          Declared.not_quote_of_isBlank hBlank⟩
      | doubled => exact absurd hBlank (by decide)
      | quote => exact absurd hBlank (by decide)
      | quoted b => exact absurd hBlank Bool.false_ne_true
  -- so the style is read again, whatever comes next that is no apostrophe
  have hFront := Dialect.style.scan_front (u := u) hGlyphs (by
    right
    rw [hAfter]
    exact ⟨hClosed.1, ⟨c, rfl, hClosed.2, rfl⟩, hNoQuote⟩)
  rw [hClosed.1] at hFront
  exact hFront

/-- A style is found again in front of other blanks and a brace. -/
theorem ofSource_source_append {s t u k : List Char} {c : Char}
    (hSplit : (ofSource s).source ++ c :: t = s) (hBlanks : Declared.Blanks u k)
    (hEnd : ∀ b ∈ k.head?, isBrace b = true) :
    ofSource ((ofSource s).source ++ u) = ⟨(ofSource s).glyphs, k⟩ := by
  have hNoQuote := Declared.head?_ne_quote_of_blanks hBlanks hEnd
  obtain ⟨run, hRun⟩ := hBlanks
  -- the scan of the style is followed by that of what comes after it
  have hScan := scan_source_append hSplit hNoQuote
  rw [Declared.blanks_scan hRun hEnd] at hScan
  -- the new blanks are trimmed, and the style ends where it ended
  have hLeftOut : Glyph.trimmed (run.map Glyph.bare) = [] := by
    refine Glyph.trimmed_eq_nil_iff.mpr fun g hg => ?_
    obtain ⟨b, hb, rfl⟩ := List.mem_map.mp hg
    exact hRun.inside b hb
  obtain ⟨-, -, -, hTwice⟩ := Glyph.exists_blanks (Dialect.style.scan false s).glyphs
  have hGlyphs : Glyph.trimmed ((ofSource s).glyphs ++ run.map Glyph.bare) =
      (ofSource s).glyphs := by
    rw [Glyph.trimmed_append, if_pos hLeftOut]
    exact hTwice
  rw [ofSource.eq_1 (_ ++ u), hScan]
  exact congrArg (StyleScan.mk · k) hGlyphs

/-- A style is scanned alike by itself. -/
theorem scan_source (s : List Char) :
    Dialect.style.scan false (ofSource s).source = ⟨(ofSource s).glyphs, []⟩ := by
  have hSplit := source_append_drop s
  cases hRest : s.drop (ofSource s).source.length with
  | cons c t =>
    -- something stands after the style, which was not looked at
    rw [hRest] at hSplit
    have hAlone := scan_source_append (u := []) hSplit (by simp)
    rw [List.append_nil, Dialect.scan.eq_1, List.append_nil] at hAlone
    exact hAlone
  | nil =>
    -- the style is all of the text, so nothing was left out
    rw [hRest, List.append_nil] at hSplit
    obtain ⟨blanks, hGlyphs, -, -⟩ :=
      Glyph.exists_blanks (Dialect.style.scan false s).glyphs
    have hSource := Stretch.source_append_rest Dialect.style false s
    have hNone : Glyph.sourceOf blanks ++ (Dialect.style.scan false s).rest = [] := by
      rw [hGlyphs, Glyph.sourceOf_append, List.append_assoc] at hSource
      exact List.append_right_eq_self.mp (hSource.trans hSplit.symm)
    -- so no blank stands after it either
    obtain ⟨hBlanks, hEnd⟩ := List.append_eq_nil_iff.mp hNone
    obtain rfl : blanks = [] := by
      cases blanks with
      | nil => rfl
      | cons g gs => exact absurd (List.append_eq_nil_iff.mp hBlanks).1 g.source_ne_nil
    rw [List.append_nil] at hGlyphs
    have hScan : Dialect.style.scan false s = ⟨(ofSource s).glyphs, []⟩ :=
      congrArg₂ Stretch.mk hGlyphs hEnd
    rw [hSplit, hScan]

end StyleScan

/-! ## The grammar -/

namespace Grammar

open Reader

/-! ### Offset clauses -/

/-- There are digits, and not too many of them, where a number is read. -/
theorem run_offsetDigits_of_accepts {s t : List Char} {o : Option Nat}
    (h : offsetDigits.Accepts s o t) :
    ∃ digits, Declared.Run Char.isDigit s digits t ∧ o = some (Numeral.value digits) ∧
      ∀ {s' t' : List Char}, Declared.Run Char.isDigit s' digits t' →
        offsetDigits.run s' = ⟨.ok o, [⟨.number, String.ofList digits⟩], t'⟩ := by
  rw [Accepts] at h
  -- there are no digits, or too many of them, or as many as can be read
  by_cases hNone : s.takeWhile Char.isDigit = []
  · simp [run_offsetDigits_of_none hNone] at h
  · cases hRead : Numeral.read? (s.takeWhile Char.isDigit) with
    | none => simp [run_offsetDigits_of_long hRead] at h
    | some n =>
      rw [run_offsetDigits_of_short hNone hRead] at h
      obtain ⟨hValue, rfl⟩ := h
      obtain rfl := Except.ok.inj hValue
      refine ⟨_, Declared.run_takeWhile .., by rw [(read?_eq_some_iff.mp hRead).2], ?_⟩
      intro s' t' hRun
      obtain ⟨hTake, rfl⟩ := Declared.run_iff.mp hRun
      rw [hTake] at hNone hRead ⊢
      exact run_offsetDigits_of_short hNone hRead

/-- The number of a clause is that of its token. -/
theorem unspaced_run_offsetNumber {s t : List Char} {o : Option Nat}
    (h : offsetNumber.Accepts s o t) :
    ∃ digits, Token.unspaced (offsetNumber.run s).tokens = [⟨.number, String.ofList digits⟩] ∧
      o = some (Numeral.value digits) := by
  obtain ⟨⟨⟩, u, hSpace, hDigits⟩ := accepts_bind.mp h
  obtain ⟨digits, hRun, hValue, hRead⟩ := run_offsetDigits_of_accepts hDigits
  refine ⟨digits, ?_, hValue⟩
  rw [offsetNumber, unspaced_run_bind hSpace, unspaced_run_space, hRead hRun]
  rfl

/-- A clause is told by its keyword, and its number is that of a token. -/
theorem unspaced_run_offset_of_keyword {s t : List Char} {n : Nat}
    (h : offset.Accepts ("offset:".toList ++ s) n t) :
    ∃ digits, Token.unspaced (offset.run ("offset:".toList ++ s)).tokens =
        [⟨.offset, "offset"⟩, ⟨.colon, ":"⟩, ⟨.number, String.ofList digits⟩] ∧
      n = Numeral.value digits := by
  obtain ⟨o, u, hClause, hNext⟩ := accepts_bind.mp h
  have hNumber : offsetNumber.Accepts s o u := by
    rwa [Accepts, run_offsetClause?_of_keyword] at hClause
  obtain ⟨digits, hLog, rfl⟩ := unspaced_run_offsetNumber hNumber
  obtain ⟨⟨⟩, u', hSpace, hPure⟩ := accepts_bind.mp hNext
  obtain ⟨rfl, -⟩ := accepts_pure.mp hPure
  refine ⟨digits, ?_, rfl⟩
  -- the clause logs its keyword, its colon, its number, and blanks that are dropped
  rw [offset, unspaced_run_bind hClause, run_offsetClause?_of_keyword,
    Token.unspaced_cons (by decide), Token.unspaced_cons (by decide), hLog,
    unspaced_run_bind hSpace, unspaced_run_space]
  rfl

/-- A written offset logs its keyword first. -/
theorem beginsAt_offset {s : List Char} (hKeyword : "offset:".toList <+: s) :
    offset.BeginsAt (· = .offset) s := by
  obtain ⟨u, rfl⟩ := hKeyword
  intro n t hRun
  obtain ⟨digits, hLog, -⟩ := unspaced_run_offset_of_keyword hRun
  rw [hLog]
  exact ⟨_, _, rfl, rfl⟩

/-- Offsets agree that are not followed by another clause. -/
theorem agree_offset : offset.Agree offset (· ≠ .offset) := by
  intro s s' n n' t t' more more' hRun hRun' hMore hMore' hLogs
  by_cases hKeyword : "offset:".toList <+: s <;> by_cases hKeyword' : "offset:".toList <+: s'
  · -- both offsets are written, so the logs tell their digits
    obtain ⟨u, rfl⟩ := hKeyword
    obtain ⟨u', rfl⟩ := hKeyword'
    obtain ⟨digits, hLog, rfl⟩ := unspaced_run_offset_of_keyword hRun
    obtain ⟨digits', hLog', rfl⟩ := unspaced_run_offset_of_keyword hRun'
    rw [hLog, hLog'] at hLogs
    simp only [List.cons_append, List.nil_append, List.cons.injEq, Token.mk.injEq,
      String.ofList_inj, true_and] at hLogs
    obtain ⟨rfl, hSame⟩ := hLogs
    exact ⟨rfl, hSame⟩
  · -- what follows the offset that is not written would be another clause
    rw [run_offset_of_not_keyword hKeyword', Token.unspaced_nil, List.nil_append] at hLogs
    rw [← hLogs] at hMore'
    exact absurd hMore'
      ((beginsAt_offset hKeyword).not_heads hRun fun _ hClause hNot => hNot hClause)
  · rw [run_offset_of_not_keyword hKeyword, Token.unspaced_nil, List.nil_append] at hLogs
    rw [hLogs] at hMore
    exact absurd hMore
      ((beginsAt_offset hKeyword').not_heads hRun' fun _ hClause hNot => hNot hClause)
  · -- neither is written, so both are zero
    have hNone := run_offset_of_not_keyword hKeyword
    have hNone' := run_offset_of_not_keyword hKeyword'
    rw [hNone, hNone'] at hLogs
    rw [Accepts, hNone] at hRun
    rw [Accepts, hNone'] at hRun'
    exact ⟨Except.ok.inj (hRun.1.symm.trans hRun'.1), hLogs⟩

/-! ### Cases -/

theorem beginsAt_caseEntry (body : Reader Message) (s : List Char) :
    (caseEntry body).BeginsAt (· = .selector) s :=
  (beginsAt_name (by decide) _ s).bind_left _

/-- Cases agree if their bodies do. -/
theorem agree_caseEntry {body body' : Reader Message}
    (hBody : body.Agree body' Token.anyKind) :
    (caseEntry body).Agree (caseEntry body') Token.anyKind :=
  (agree_name (by decide) _).bind fun _ => agree_space.bind fun _ =>
    (agree_demand _ (by decide) _).bind fun _ => hBody.bind fun _ =>
    agree_space.bind fun _ => agree_pure _

theorem beginsAt_caseList (body : Body) (construct : String) (b requireOther : Bool)
    {s : List Char} (hGoesOn : closesHere s = false) :
    (caseList body construct b requireOther).BeginsAt (· = .selector) s :=
  (beginsAt_untilClose hGoesOn (beginsAt_caseEntry (body b) s)).bind_left _

/-- No clause stands where cases and a closing brace are to follow. -/
theorem heads_caseList {body : Body} {construct : String} {b requireOther : Bool}
    {s t : List Char} {cases : List (Case Element)} {more : List Token}
    (hRun : (caseList body construct b requireOther).Accepts s cases t)
    (hMore : Token.Heads (· = .closeBrace) more) :
    Token.Heads (· ≠ .offset)
      (Token.unspaced ((caseList body construct b requireOther).run s).tokens ++ more) := by
  cases hGoesOn : closesHere s with
  | false =>
    -- the list has a first case, so a selector comes first
    have hHeads := (beginsAt_caseList body construct b requireOther hGoesOn).heads hRun more
    intro token hToken
    rw [hHeads token hToken]
    decide
  | true =>
    -- the list is empty and logs nothing, so what follows comes first
    have hNone : ((caseList body construct b requireOther).run s).tokens = [] := by
      have hEnds : (untilClose (caseItem (body b))).run s = ⟨.ok [], [], s⟩ :=
        untilClose_run_of_close hGoesOn
      rw [caseList, run_bind_of_ok (by rw [hEnds]), hEnds]
      exact ((silent_require _ _).bind fun _ => silent_checked _) s
    rw [hNone]
    intro token hToken
    rw [hMore token hToken]
    decide

section
variable {body body' : Body} (hBody : ∀ b, (body b).Agree (body' b) Token.anyKind)
include hBody

/-- Case lists agree if the bodies of their cases do, where a closing brace follows. -/
theorem agree_caseList (construct : String) (b requireOther : Bool) :
    (caseList body construct b requireOther).Agree (caseList body' construct b requireOther)
      (· = .closeBrace) := by
  intro s s'
  -- a case begins with its selector, which is no closing brace
  have hBegins : ∀ (body : Body) s, (caseItem (body b)).BeginsAt (· ≠ .closeBrace) s :=
    fun body s => (beginsAt_caseEntry (body b) s).mono (by rintro kind rfl; decide)
  have hList := agreeAt_untilClose (caseItem (body b)) (caseItem (body' b))
    (fun s s' _ _ => agree_caseEntry (hBody b) s s') (fun s _ => hBegins body s)
    (fun s _ => hBegins body' s) s s'
  -- what is checked after the entries logs nothing
  have hSilent : ∀ entries : List (String × Message),
      (require (!requireOther || entries.any (fun entry => entry.1 == otherSelector))
          (.missingOther construct) >>= fun _ =>
        checked ((Keyed.collapse entries).mapM fun entry =>
          Case.make? entry.1 entry.2)).Silent :=
    fun entries => (silent_require _ _).bind fun _ => silent_checked _
  exact hList.bind_silent hSilent hSilent fun entries =>
    (agree_require _ _).bind fun _ => agree_checked _

/-- Plural arguments agree, and the keyword tells whether an offset is written. -/
theorem agree_pluralArgument (id : String) (kind : PluralKind) :
    (pluralArgument body id kind).Agree (pluralArgument body' id kind) (· = .closeBrace) := by
  intro s s'
  refine (agree_offset s s').bind ?_ ?_ fun n t t' _ _ =>
    (agree_caseList hBody _ _ _ t t').bind_silent (fun _ => silent_checked _)
      (fun _ => silent_checked _) fun _ => agree_checked _
  all_goals
    intro n e t u more hRun hMore
    obtain ⟨cases, v, hCases, hNode⟩ := accepts_bind.mp hRun
    rw [unspaced_run_bind hCases, silent_checked, Token.unspaced_nil, List.append_nil]
    exact heads_caseList hCases hMore

theorem agree_selectArgument (id : String) :
    (selectArgument body id).Agree (selectArgument body' id) (· = .closeBrace) := fun s s' =>
  (agree_caseList hBody _ _ _ s s').bind_silent (fun _ => silent_checked _)
    (fun _ => silent_checked _) fun _ => agree_checked _

theorem agree_ownCases (id type : String) :
    (ownCases body id type).Agree (ownCases body' id type) (· = .closeBrace) := fun s s' =>
  (agree_caseList hBody _ _ _ s s').bind_silent (fun _ => silent_checked _)
    (fun _ => silent_checked _) fun _ => agree_checked _

end

/-! ### Placeholders -/

/-- A style is logged as its source text, if it is read at all. -/
theorem tokens_run_styleOnly {id type : String} {scan : StyleScan} {s t : List Char}
    {e : Element} (hRun : (styleOnly id type scan).Accepts s e t) :
    ((styleOnly id type scan).run s).tokens = [⟨.style, String.ofList scan.source⟩] ∧
      Element.typed? id type (some scan.value) = .ok e := by
  obtain ⟨hValue, hStyle⟩ := accepts_require_bind.mp hRun
  obtain ⟨style, u, hCommit, hNode⟩ := accepts_bind.mp hStyle
  obtain ⟨rfl, -⟩ := accepts_commitStyle.mp hCommit
  refine ⟨?_, (accepts_checked.mp hNode).1⟩
  rw [styleOnly, hValue]
  show ((commitStyle scan >>= fun style => checked _).run s).tokens = _
  rw [run_bind_of_ok hCommit.1, silent_checked]
  rfl

theorem beginsAt_styleOnly (id type : String) (scan : StyleScan) (s : List Char) :
    (styleOnly id type scan).BeginsAt (· = .style) s := by
  intro e t hRun
  rw [(tokens_run_styleOnly hRun).1, Token.unspaced_cons (by simp)]
  exact ⟨_, _, rfl, rfl⟩

/-- What a style stands for is seen from its source text. -/
theorem StyleScan.value_congr {s s' : List Char}
    (hSource : (StyleScan.ofSource s).source = (StyleScan.ofSource s').source) :
    (StyleScan.ofSource s).value = (StyleScan.ofSource s').value := by
  have hScan := StyleScan.scan_source s
  rw [hSource, StyleScan.scan_source s'] at hScan
  rw [StyleScan.value, StyleScan.value, (Stretch.mk.inj hScan).1]

/-- Styles agree: the token tells the style, as it is read again by itself. -/
theorem agreeAt_styleOnly (id type : String) (s s' : List Char) :
    (styleOnly id type (StyleScan.ofSource s)).AgreeAt
      (styleOnly id type (StyleScan.ofSource s')) Token.anyKind s s' := by
  intro e e' t t' more more' hRun hRun' _ _ hLogs
  obtain ⟨hLog, hNode⟩ := tokens_run_styleOnly hRun
  obtain ⟨hLog', hNode'⟩ := tokens_run_styleOnly hRun'
  rw [hLog, hLog', Token.unspaced_cons (by simp), Token.unspaced_cons (by simp)] at hLogs
  obtain ⟨hToken, hMore⟩ := List.cons.inj hLogs
  have hSource := String.ofList_inj.mp (Token.mk.inj hToken).2
  rw [StyleScan.value_congr hSource] at hNode
  exact ⟨Except.ok.inj (hNode.symm.trans hNode'), hMore⟩

/-- Where a placeholder is closed at once, its log begins with the brace, and with the comma
where it goes on. -/
theorem agree_closeOr {p q q' : Reader Element} {F : Token.Kind → Prop}
    (hClose : p.Agree p F) (hGoOn : q.Agree q' F)
    (hBrace : ∀ s, p.BeginsAt (· = .closeBrace) s)
    (hComma : ∀ s, q.BeginsAt (· = .comma) s) (hComma' : ∀ s, q'.BeginsAt (· = .comma) s) :
    (space >>= fun _ => peek >>= fun next => if next == some '\x7d' then p else q).Agree
      (space >>= fun _ => peek >>= fun next => if next == some '\x7d' then p else q') F := by
  have hApart : ∀ kind : Token.Kind, kind = .closeBrace → ¬kind = .comma := by
    rintro kind rfl
    decide
  refine agree_space.bind fun _ s s' => ?_
  refine AgreeAt.of_run_eq ?_ (run_peek_bind s) (run_peek_bind s')
  split <;> split
  · -- closed on both sides, closed on one of them, or gone on with on both
    exact hClose s s'
  · exact agreeAt_of_begins (hBrace s) (hComma' s') hApart
  · exact (agreeAt_of_begins (hBrace s') (hComma s) hApart).symm
  · exact hGoOn s s'

theorem beginsAt_close (s : List Char) : close.BeginsAt (· = .closeBrace) s :=
  BeginsAt.bind_right (unspaced_run_space s) fun _ t _ => beginsAt_demand (by decide) _ t

section
variable {body body' : Body} (hBody : ∀ b, (body b).Agree (body' b) Token.anyKind)
include hBody

/-- A style and cases of one's own begin with different tokens. -/
theorem agree_styleArgument (id type : String) :
    (styleArgument body id type).Agree (styleArgument body' id type) (· = .closeBrace) := by
  intro s s'
  -- a list of cases begins with a selector, and a style with its own token
  have hCases : ∀ (body : Body) (s : List Char),
      ((StyleScan.ofSource s).stopsAtOpenBrace && !simpleTypes.contains type) = true →
      (ownCases body id type).BeginsAt (· = .selector) s := by
    intro body s hList
    have hGoesOn :=
      closesHere_eq_false_of_stopsAtOpenBrace (Bool.and_eq_true_iff.mp hList).1
    exact (beginsAt_caseList body type false false hGoesOn).bind_left _
  have hApart : ∀ kind : Token.Kind, kind = .selector → ¬kind = .style := by
    rintro kind rfl
    decide
  refine AgreeAt.of_run_eq ?_ (run_styleArgument body id type s)
    (run_styleArgument body' id type s')
  unfold thirdPart
  split <;> split
  · exact agree_ownCases hBody id type s s'
  · next hList _ =>
    exact agreeAt_of_begins (hCases body s hList) (beginsAt_styleOnly id type _ s') hApart
  · next _ hList =>
    exact (agreeAt_of_begins (hCases body' s' hList) (beginsAt_styleOnly id type _ s)
      hApart).symm
  · exact (agreeAt_styleOnly id type s s').mono fun _ _ => trivial

/-- Arguments agree if the bodies of their cases do, whatever the type is. -/
theorem agree_argument (id type : String) :
    (argument body id type).Agree (argument body' id type) (· = .closeBrace) := by
  unfold argument
  split
  · exact agree_pluralArgument hBody id _
  · split
    · exact agree_selectArgument hBody id
    · exact agree_styleArgument hBody id type

/-- What follows a type agrees: the brace or the comma tells whether there is more. -/
theorem agree_afterType (id type : String) :
    (afterType body id type).Agree (afterType body' id type) Token.anyKind := by
  have hSeparator : ∀ (next : Unit → Reader Element) s,
      (separator >>= next).BeginsAt (· = .comma) s := fun next s =>
    (beginsAt_demand (by decide) _ s).bind_left next
  -- the type ends the placeholder, or a third part follows
  refine agree_closeOr ?_ ?_ ?_ (hSeparator _) (hSeparator _)
  · exact (agree_require _ _).bind fun _ => (agree_take (by decide)).bind fun _ =>
      agree_checked _
  · refine (agree_demand _ (by decide) _).bind fun _ => agree_space.bind fun _ => ?_
    -- the closing brace tells where the argument ends
    have hClose : ∀ e : Element, (close >>= fun _ => (pure e : Reader Element)).Agree
        (close >>= fun _ => pure e) Token.anyKind := fun e =>
      (agree_space.bind fun _ => agree_demand _ (by decide) _).bind fun _ => agree_pure e
    have hBegins : ∀ (e : Element) t, (close >>= fun _ =>
        (pure e : Reader Element)).BeginsAt (· = .closeBrace) t := fun e t =>
      (beginsAt_close t).bind_left _
    exact fun s s' => (agree_argument hBody id type s s').bind
      (fun hRun _ => (hBegins _ _).heads hRun _) (fun hRun _ => (hBegins _ _).heads hRun _)
      fun e t t' _ _ => hClose e t t'
  · exact fun s => BeginsAt.bind_right (by rw [silent_require]; rfl) fun _ t _ =>
      (beginsAt_take (by decide) t).bind_left _

/-- Placeholders agree if the bodies of their cases do. -/
theorem agree_placeholder :
    (placeholder body).Agree (placeholder body') Token.anyKind := by
  have hSeparator : ∀ (next : Unit → Reader Element) s,
      (separator >>= next).BeginsAt (· = .comma) s := fun next s =>
    (beginsAt_demand (by decide) _ s).bind_left next
  refine agree_space.bind fun _ => (agree_name (by decide) _).bind fun id => ?_
  refine agree_closeOr ?_ ?_ ?_ (hSeparator _) (hSeparator _)
  · exact (agree_take (by decide)).bind fun _ => agree_checked _
  · exact (agree_demand _ (by decide) _).bind fun _ => agree_space.bind fun _ =>
      (agree_name (by decide) _).bind fun type => agree_afterType hBody id type
  · exact fun s => (beginsAt_take (by decide) s).bind_left _

end

/-! ### Messages -/

/-- Where a list of elements goes on, a brace opens, or a pound sign stands for a number, or
there is text. -/
theorem element_cases {b : Bool} {s : List Char} (hGoesOn : closesHere s = false) :
    (∃ t, s = '\x7b' :: t) ∨ (∃ t, b = true ∧ s = '#' :: t) ∨
      ∃ c t, s = c :: t ∧ isSpecial b c = false := by
  obtain ⟨c, t, rfl⟩ := exists_cons_of_goesOn hGoesOn
  have hNotClose : c ≠ '\x7d' := by simpa [closesHere] using hGoesOn
  cases hSpecial : isSpecial b c with
  | false => exact .inr (.inr ⟨c, t, rfl, hSpecial⟩)
  | true =>
    -- a special character that is no closing brace is an opening one or a pound sign
    by_cases hOpen : c = '\x7b'
    · exact .inl ⟨t, by rw [hOpen]⟩
    · obtain ⟨hPound, rfl⟩ : b = true ∧ c = '#' := by
        simpa [isSpecial, isBrace, hNotClose, hOpen] using hSpecial
      exact .inr (.inl ⟨t, hPound, rfl⟩)

/-- A placeholder logs its opening brace first. -/
theorem beginsAt_item_of_brace (body : Body) (b : Bool) (t : List Char) :
    (elementItem body b).BeginsAt (· = .openBrace) ('\x7b' :: t) := by
  intro e u _
  rcases hRun : (placeholder body).run t with ⟨result, tokens, rest⟩
  rw [run_item_of_brace hRun, Token.unspaced_cons (by decide)]
  exact ⟨_, _, rfl, rfl⟩

theorem beginsAt_item_of_pound (body : Body) (t : List Char) :
    (elementItem body true).BeginsAt (· = .pound) ('#' :: t) := by
  intro e u _
  rw [run_item_of_pound, Token.unspaced_cons (by decide)]
  exact ⟨_, _, rfl, rfl⟩

theorem beginsAt_item_of_text (body : Body) {b : Bool} {c : Char} (t : List Char)
    (hPlain : isSpecial b c = false) : (elementItem body b).BeginsAt (· = .text) (c :: t) := by
  intro e u _
  rw [run_item_of_text body hPlain rfl, Token.unspaced_cons (by simp)]
  exact ⟨_, _, rfl, rfl⟩

/-- Text is seen from its token. -/
theorem agreeAt_item_of_text (body body' : Body) {b : Bool} {c c' : Char} (t t' : List Char)
    (hPlain : isSpecial b c = false) (hPlain' : isSpecial b c' = false) :
    (elementItem body b).AgreeAt (elementItem body' b).toReader Token.anyKind (c :: t)
      (c' :: t') := by
  intro e e' u u' more more' hRun hRun' _ _ hLogs
  rw [Accepts, run_item_of_text body hPlain rfl] at hRun
  rw [Accepts, run_item_of_text body' hPlain' rfl] at hRun'
  rw [run_item_of_text body hPlain rfl, run_item_of_text body' hPlain' rfl,
    Token.unspaced_cons (by simp), Token.unspaced_cons (by simp)] at hLogs
  -- the tokens are the same, so the same text was covered
  obtain ⟨hToken, hMore⟩ := List.cons.inj hLogs
  -- the text that a scan covers has these glyphs by itself
  have hSource := String.ofList_inj.mp (Token.mk.inj hToken).2
  have hCut := (Dialect.text b).scan_cut (fun _ h => h) false (c :: t)
  rw [hSource, (Dialect.text b).scan_cut (fun _ h => h) false (c' :: t')] at hCut
  rw [(Stretch.mk.inj hCut).1] at hRun'
  exact ⟨Except.ok.inj (hRun.1.symm.trans hRun'.1), hMore⟩

section
variable {body body' : Body} (hBody : ∀ b, (body b).Agree (body' b) Token.anyKind)
include hBody

/-- Placeholders that open at both places agree if the bodies of their cases do. -/
theorem agreeAt_item_of_brace (b : Bool) (t t' : List Char) :
    (elementItem body b).AgreeAt (elementItem body' b).toReader Token.anyKind ('\x7b' :: t)
      ('\x7b' :: t') := by
  have hOpen : (take .openBrace >>= fun _ => placeholder body).Agree
      (take .openBrace >>= fun _ => placeholder body') Token.anyKind :=
    (agree_take (by decide)).bind fun _ => agree_placeholder hBody
  exact (hOpen _ _).of_run_eq (run_peek_bind _) (run_peek_bind _)

/-- Elements begin with different tokens, or they are of one sort. -/
theorem agreeAt_item (b : Bool) {s s' : List Char} (hGoesOn : closesHere s = false)
    (hGoesOn' : closesHere s' = false) :
    (elementItem body b).AgreeAt (elementItem body' b).toReader Token.anyKind s s' := by
  -- two kinds that differ cannot both come first
  have hApart : ∀ {kind kind' : Token.Kind}, kind ≠ kind' →
      ∀ found : Token.Kind, found = kind → ¬found = kind' := by
    rintro kind kind' hNe found rfl
    exact hNe
  -- the first token tells which of the three kinds of element was read
  rcases element_cases (b := b) hGoesOn with ⟨t, rfl⟩ | ⟨t, hPound, rfl⟩ | ⟨c, t, rfl, hPlain⟩
  · have hBegins := beginsAt_item_of_brace body b t
    rcases element_cases (b := b) hGoesOn' with ⟨t', rfl⟩ | ⟨t', rfl, rfl⟩ |
      ⟨c', t', rfl, hPlain'⟩
    · exact agreeAt_item_of_brace hBody b t t'
    · exact agreeAt_of_begins hBegins (beginsAt_item_of_pound body' t') (hApart (by decide))
    · exact agreeAt_of_begins hBegins (beginsAt_item_of_text body' t' hPlain')
        (hApart (by decide))
  · subst hPound
    have hBegins := beginsAt_item_of_pound body t
    rcases element_cases (b := true) hGoesOn' with ⟨t', rfl⟩ | ⟨t', -, rfl⟩ |
      ⟨c', t', rfl, hPlain'⟩
    · exact agreeAt_of_begins hBegins (beginsAt_item_of_brace body' true t')
        (hApart (by decide))
    · exact ((agree_take (by decide)).bind fun _ => agree_pure Element.pound) _ _
    · exact agreeAt_of_begins hBegins (beginsAt_item_of_text body' t' hPlain')
        (hApart (by decide))
  · have hBegins := beginsAt_item_of_text body t hPlain
    rcases element_cases (b := b) hGoesOn' with ⟨t', rfl⟩ | ⟨t', rfl, rfl⟩ |
      ⟨c', t', rfl, hPlain'⟩
    · exact agreeAt_of_begins hBegins (beginsAt_item_of_brace body' b t') (hApart (by decide))
    · exact agreeAt_of_begins hBegins (beginsAt_item_of_pound body' t') (hApart (by decide))
    · exact agreeAt_item_of_text body body' t t' hPlain hPlain'

/-- The elements of two messages agree if the bodies below them do. -/
theorem agree_elements {cx cx' : Context} (hPound : cx.poundIsNumber = cx'.poundIsNumber) :
    (elements body cx).Agree (elements body' cx') (· = .closeBrace) := by
  intro s s'
  have hBegins : ∀ (body : Body) s, closesHere s = false →
      (elementItem body cx.poundIsNumber).BeginsAt (· ≠ .closeBrace) s := by
    intro body s hGoesOn
    rcases element_cases (b := cx.poundIsNumber) hGoesOn with ⟨t, rfl⟩ | ⟨t, hTrue, rfl⟩ |
      ⟨c, t, rfl, hPlain⟩
    · exact (beginsAt_item_of_brace body _ t).mono (by rintro kind rfl; decide)
    · rw [hTrue]
      exact (beginsAt_item_of_pound body t).mono (by rintro kind rfl; decide)
    · exact (beginsAt_item_of_text body t hPlain).mono (by rintro kind rfl; decide)
  -- the lists of elements agree
  have hList := agreeAt_untilClose (elementItem body cx.poundIsNumber)
    (elementItem body' cx.poundIsNumber)
    (fun s s' => agreeAt_item hBody _) (hBegins body) (hBegins body') s s'
  unfold elements
  rw [← hPound]
  -- what is checked at the end of the elements logs nothing
  have hSilent : ∀ (top : Bool) (m : Message), (peek >>= fun next =>
      require (!top || next != some '\x7d') .unexpected >>= fun _ =>
        (pure m : Reader Message)).Silent := fun top m =>
    silent_peek.bind fun _ => (silent_require _ _).bind fun _ => silent_pure m
  refine hList.bind_silent (hSilent _) (hSilent _) fun m => ?_
  refine agree_of_silent (hSilent _ m) (hSilent _ m) ?_
  intro s s' n n' t t' hRun hRun'
  simp only [accepts_peek_bind, accepts_require_bind, accepts_pure] at hRun hRun'
  exact hRun.2.1.symm.trans hRun'.2.1

end

/-- The closing brace tells where a message ends. -/
theorem agree_closed {body body' : Reader Message} (hBody : body.Agree body' (· = .closeBrace)) :
    (closed body).Agree (closed body') Token.anyKind := by
  have hBegins : ∀ (m : Message) t, (demand '\x7d' .closeBrace .subMessageClose >>= fun _ =>
      (pure m : Reader Message)).BeginsAt (· = .closeBrace) t := fun m t =>
    (beginsAt_demand (by decide) _ t).bind_left _
  exact fun s s' => (hBody s s').bind (fun hRun _ => (hBegins _ _).heads hRun _)
    (fun hRun _ => (hBegins _ _).heads hRun _) fun m t t' _ _ =>
    ((agree_demand _ (by decide) _).bind fun _ => agree_pure m) t t'

/-- Messages agree, whatever the limits under which they are read. -/
theorem agree_message (cx cx' : Context) (hPound : cx.poundIsNumber = cx'.poundIsNumber) :
    (message cx).Agree (message cx') (· = .closeBrace) := by
  -- by induction on the levels of the first message
  induction cx using message_induction generalizing cx' with
  | step cx ih =>
    rw [message_eq, message_eq]
    refine agree_elements (fun b => ?_) hPound
    -- a body is read at both levels, since both gave a message
    intro s s' m m' t t' more more' hRun hRun'
    by_cases hFull : cx.isFull = true
    · rw [subMessage, if_pos hFull] at hRun
      exact absurd hRun not_accepts_reject
    by_cases hFull' : cx'.isFull = true
    · rw [subMessage, if_pos hFull'] at hRun'
      exact absurd hRun' not_accepts_reject
    -- both bodies are messages in braces
    rw [subMessage, if_neg hFull] at hRun ⊢
    rw [subMessage, if_neg hFull'] at hRun' ⊢
    exact agree_closed (ih hFull b (cx'.enter b) rfl) s s' hRun hRun'

end Grammar

end MessagePattern
