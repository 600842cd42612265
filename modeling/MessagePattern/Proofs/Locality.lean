import MessagePattern.Proofs.Decided
import MessagePattern.Tree.Equality

/-!
# An error is decided where it stands

The grammar looks ahead further than one character in two places. The keyword of an
offset clause is a word, and where it does not stand the cases that follow read the
word that does. A style is scanned up to a brace, and either the style and the
blanks after it are read that far, or the brace is the first one of a list of cases.
So the text after the next character may be replaced by any other, unless a list of
cases stops short of the brace for which it was begun.

* `Opens` — a list of cases takes its first brace or stops short of it;
* `thirdPart_eq_of_opens`, `thirdPart_eq_of_far` — when the third part of a
  placeholder is read as before;
* `Grammar.decided_message` — messages are decided;
* `Parser.parseInto_take_append` — so is the error of a whole parse.
-/

namespace MessagePattern

namespace Grammar

open Reader Declared

/-- Where the keyword and colon of an offset clause stand, they are read, so they
cannot change. -/
theorem decided_offset_of_keyword (u : List Char) :
    offset.DecidedAt Exempt ("offset:".toList ++ u) := by
  have hClause : offsetClause?.DecidedAt Exempt ("offset:".toList ++ u) := by
    have hNumber := decided_offsetNumber u
    -- the literal `offset:` stands in front of whatever the number goes on with
    have hJoined : ∀ more, Token.joined (⟨.offset, "offset"⟩ :: ⟨.colon, ":"⟩ :: more) =
        "offset:".toList ++ Token.joined more := fun more => rfl
    have hTiles := tiles_offsetClause? ("offset:".toList ++ u)
    refine ⟨hTiles, ?_⟩
    rw [run_offsetClause?_of_keyword]
    intro hNotExempt t' hHead
    have hSame := hNumber.keeps (fun fault hFault hExempt =>
      hNotExempt fault hFault (hExempt.append_left [⟨.offset, "offset"⟩, ⟨.colon, ":"⟩]))
      t' hHead
    rw [hJoined, List.append_assoc, run_offsetClause?_of_keyword, hSame]
  -- after the clause only blanks are skipped
  refine hClause.andThen fun clause _ => ?_
  cases clause with
  | some n => exact (decided_space.andThen fun _ => decided_pure n) _
  | none => exact decided_pure 0 _

/-- What follows a reader only takes characters away from what the reader left. -/
theorem length_rest_bind_le {α β : Type} (p : Reader α) (next : α → Reader β)
    (s : List Char) : ((p >>= next).run s).rest.length ≤ (p.run s).rest.length := by
  cases hResult : (p.run s).result with
  | ok a =>
    rw [run_bind_of_ok hResult]
    exact (next a).length_rest_le _
  | error fault =>
    rw [run_bind_of_error hResult]

/-- A name stops where its word ends, whether it is accepted or rejected. -/
theorem rest_run_name (kind : Token.Kind) (what : Expectation) (s : List Char) :
    ((name kind what).run s).rest = s.dropWhile isWordChar := by
  cases hResult : ((name kind what).run s).result with
  | ok w =>
    -- a word was read, and the rest is what follows it
    have hAccepts : (name kind what).Accepts s w _ := ⟨hResult, rfl⟩
    exact (word_iff.mp (accepts_name.mp hAccepts)).2.1
  | error fault =>
    -- no word character stands here, so nothing is dropped
    have hStops : (name kind what).Stops s fault _ := ⟨hResult, rfl⟩
    obtain ⟨hHead, -, hRest⟩ := stops_name.mp hStops
    rw [← hRest]
    cases s with
    | nil => rfl
    | cons c t => rw [List.dropWhile_cons_of_neg (by simp [hHead c rfl])]

/-- Where cases begin, the word in front is read. -/
theorem length_rest_caseList_le (body : Body) (construct : String)
    (poundIsNumber requireOther : Bool) {s : List Char}
    (hGoesOn : closesHere s = false) :
    ((caseList body construct poundIsNumber requireOther).run s).rest.length ≤
      (s.dropWhile isWordChar).length := by
  calc ((caseList body construct poundIsNumber requireOther).run s).rest.length
      ≤ ((untilClose (caseItem (body poundIsNumber))).run s).rest.length :=
        length_rest_bind_le _ _ s
    _ ≤ ((caseEntry (body poundIsNumber)).run s).rest.length := by
      rw [untilClose_run, if_neg (by simp [hGoesOn])]
      exact length_rest_bind_le _ _ s
    _ ≤ ((name .selector .selector).run s).rest.length := length_rest_bind_le _ _ s
    _ = (s.dropWhile isWordChar).length := by rw [rest_run_name]

/-- The keyword and colon of an offset clause are one word, so reading as far as the
first word goes shows that they do not stand in front. -/
theorem not_keyword_of_head?_eq {x r t' : List Char}
    (hNot : ¬"offset:".toList <+: x ++ r)
    (hWord : closesHere (x ++ r) = false →
      r.length ≤ ((x ++ r).dropWhile isWordChar).length)
    (hHead : t'.head? = r.head?) : ¬"offset:".toList <+: x ++ t' := by
  intro hKeyword
  cases r with
  | nil =>
    -- all of the text was read, so there is nothing to replace
    obtain rfl : t' = [] := List.head?_eq_none_iff.mp hHead
    exact hNot hKeyword
  | cons c r =>
    obtain ⟨u, rfl⟩ := List.head?_eq_some_iff.mp hHead
    have hOld : x ++ [c] <+: x ++ c :: r := ⟨r, by simp⟩
    have hNew : x ++ [c] <+: x ++ c :: u := ⟨u, by simp⟩
    -- the keyword ends within what was read and the next character, or beyond them
    rcases List.prefix_or_prefix_of_prefix hKeyword hNew with hWithin | hBeyond
    · exact hNot (hWithin.trans hOld)
    · -- all that was read, and the next character, belong to one word
      have hInside : ∀ b ∈ x ++ [c], isWordChar b = true := by
        intro b hb
        exact isWordChar_of_mem_keyword b (hBeyond.subset hb)
      have hSplit : x ++ c :: r = (x ++ [c]) ++ r := by simp
      have hDrop : (x ++ c :: r).dropWhile isWordChar = r.dropWhile isWordChar := by
        rw [hSplit, List.dropWhile_append_of_pos hInside]
      have hGoesOn : closesHere (x ++ c :: r) = false := by
        have hNotClose : ∀ b ∈ x ++ [c], b ≠ '\x7d' := by
          rintro b hb rfl
          exact absurd (hInside _ hb) (by decide)
        cases x with
        | nil => exact beq_false_of_ne (hNotClose c (by simp))
        | cons b y => exact beq_false_of_ne (hNotClose b (by simp))
      have hRead := hWord hGoesOn
      have hLess := (List.dropWhile_suffix isWordChar (l := r)).length_le
      rw [hDrop] at hRead
      simp only [List.length_cons] at hRead
      omega

/-- One case is settled where its selector, its brace and its body are. -/
theorem decided_caseEntry {body : Reader Message} (hBody : body.Decided Exempt) :
    (caseEntry body).Decided Exempt :=
  (decided_name _ _).andThen fun _ => decided_space.andThen fun _ =>
    (decided_demand _ _ _).andThen
    fun _ => hBody.andThen fun _ => decided_space.andThen fun _ => decided_pure _

section
variable {body : Body} (hBody : ∀ poundIsNumber, (body poundIsNumber).Decided Exempt)
include hBody

/-- A case list is settled where its entries are: checking for `other` reads nothing. -/
theorem decided_caseList (construct : String) (poundIsNumber requireOther : Bool) :
    (caseList body construct poundIsNumber requireOther).Decided Exempt :=
  (decided_untilClose (caseItem _)
    (decided_caseEntry (hBody poundIsNumber))).andThen fun _ =>
      (decided_require _ _).andThen fun _ => decided_checked _

/-- A plural argument is settled by the character after what it read, apart from a misread `offset:`. -/
theorem decided_pluralArgument (id : String) (kind : PluralKind) :
    (pluralArgument body id kind).Decided Exempt := by
  have hCases : ∀ n : Nat, (caseList body kind.name true true >>= fun cases =>
      checked (Element.plural? id kind (.integer n) cases)).Decided Exempt := fun n =>
    (decided_caseList hBody _ _ _).andThen fun _ => decided_checked _
  intro s
  by_cases hKeyword : "offset:".toList <+: s
  · -- the clause is read, and the cases after it
    obtain ⟨u, rfl⟩ := hKeyword
    exact (decided_offset_of_keyword u).andThen fun n _ => hCases n _
  · -- the cases stand right here, and they show that no clause stands in front of them
    have hRun : ∀ u, ¬"offset:".toList <+: u → (pluralArgument body id kind).run u =
        (caseList body kind.name true true >>= fun cases => checked
          (Element.plural? id kind (.integer ((0 : Nat) : Int)) cases)).run u := by
      intro u hNot
      have hOffset := run_offset_of_not_keyword hNot
      rw [pluralArgument, run_bind_of_ok (a := 0) (by rw [hOffset]), hOffset]
      rfl
    have hTiles := (hCases 0 s).tiles.joined_append_rest
    refine (hCases 0 s).of_run_eq (hRun s hKeyword) fun _ t' hHead => hRun _ ?_
    refine not_keyword_of_head?_eq (by rwa [hTiles]) (fun hGoesOn => ?_) hHead
    rw [hTiles] at hGoesOn ⊢
    exact Nat.le_trans (length_rest_bind_le _ _ s)
      (length_rest_caseList_le _ _ _ _ hGoesOn)

theorem decided_selectArgument (id : String) : (selectArgument body id).Decided Exempt :=
  (decided_caseList hBody _ _ _).andThen fun _ => decided_checked _

end

/-! ## Styles and cases of one's own

The scan of a style runs ahead to the first unquoted brace. Where that brace opens,
the list of cases takes it as its first brace, if it gets that far; where it closes,
or the type is built in, the style and the blanks after it are read up to it. -/

/-- Words and blanks quote nothing, so the brace after them is the first unquoted
one. -/
theorem firstBrace_of_lead {lead t : List Char}
    (hLead : ∀ c ∈ lead, isWordChar c = true ∨ isBlank c = true) :
    FirstBrace (lead ++ '\x7b' :: t) ('\x7b' :: t) := by
  induction lead with
  | nil => exact ⟨[], .stop (by simp [isBrace])⟩
  | cons c lead ih =>
    obtain ⟨v, hPassage⟩ := ih fun b hb => hLead b (List.mem_cons_of_mem c hb)
    -- neither a word character nor a blank opens a quotation or is a brace
    have hPlain : c ≠ '\'' ∧ isBrace c = false := by
      rcases hLead c (List.mem_cons_self ..) with hWord | hBlank
      · rw [isWordChar_eq, isWordBreak] at hWord
        simp only [Bool.not_eq_true', Bool.or_eq_false_iff, beq_eq_false_iff_ne] at hWord
        exact ⟨hWord.1.2, by simp [isBrace, hWord]⟩
      · exact ⟨not_quote_of_isBlank hBlank, not_isBrace_of_isBlank hBlank⟩
    exact ⟨_, .more hPlain.2 (.plain hPlain.1) hPassage⟩

/-- A reader of cases either takes its first brace, with words and blanks before it,
or it stops because it misses a selector or that brace. -/
def Opens {α : Type} (p : Reader α) (s : List Char) : Prop :=
  (∃ fault, (p.run s).result = .error fault ∧ Unopened (p.run s).tokens fault) ∨
    ∃ lead t, s = lead ++ '\x7b' :: t ∧
      (∀ c ∈ lead, isWordChar c = true ∨ isBlank c = true) ∧
      (p.run s).rest.length ≤ t.length

/-- What was read holds the first brace, unless the reader stopped short of it. -/
theorem Opens.exists_lead {α : Type} {p : Reader α} {s x : List Char} (h : Opens p s)
    (hSplit : x ++ (p.run s).rest = s)
    (hTaken : ∀ fault, (p.run s).result = .error fault → ¬Unopened (p.run s).tokens fault) :
    ∃ lead u, (∀ c ∈ lead, isWordChar c = true ∨ isBlank c = true) ∧
      x = lead ++ '\x7b' :: u := by
  rcases h with ⟨fault, hFault, hUnopened⟩ | ⟨lead, t, hText, hLead, hRest⟩
  · exact absurd hUnopened (hTaken fault hFault)
  · -- the brace is in front of what the reader left
    obtain ⟨u, rfl⟩ : lead ++ ['\x7b'] <+: x := by
      refine List.prefix_of_prefix_length_le ⟨t, by simp [hText]⟩ ⟨_, hSplit⟩ ?_
      have hLength := congrArg List.length (hSplit.trans hText)
      simp only [List.length_append, List.length_cons, List.length_nil] at hLength ⊢
      omega
    exact ⟨lead, u, hLead, by simp⟩

/-- An opening stays one whatever is read after it. -/
theorem Opens.bind {α β : Type} {p : Reader α} {s : List Char} (h : Opens p s)
    (next : α → Reader β) : Opens (p >>= next) s := by
  rcases h with ⟨fault, hFault, hUnopened⟩ | ⟨lead, t, hSplit, hLead, hRest⟩
  · refine .inl ⟨fault, ?_⟩
    rw [run_bind_of_error hFault]
    exact ⟨rfl, hUnopened⟩
  · exact .inr ⟨lead, t, hSplit, hLead, Nat.le_trans (length_rest_bind_le _ _ s) hRest⟩

/-- A reader of words or blanks in front leaves it at that. -/
theorem Opens.after {α β : Type} {p : Reader α} {next : α → Reader β} {s : List Char}
    (hInner : p.LogsInner)
    (hStops : ∀ fault t, p.Stops s fault t → fault = .violation (.expected .selector))
    (hNext : ∀ a t, p.Accepts s a t → Opens (next a) t ∧ ∃ run, s = run ++ t ∧
      ∀ c ∈ run, isWordChar c = true ∨ isBlank c = true) : Opens (p >>= next) s := by
  cases hResult : (p.run s).result with
  | error fault =>
    refine .inl ⟨fault, ?_⟩
    rw [run_bind_of_error hResult]
    exact ⟨rfl, hInner s, .inl (hStops fault _ ⟨hResult, rfl⟩)⟩
  | ok a =>
    obtain ⟨hOpens, run, hRun, hLead⟩ := hNext a _ ⟨hResult, rfl⟩
    rw [Opens, run_bind_of_ok hResult]
    -- either the rest stopped before a brace, or it opened one after word characters and blanks
    rcases hOpens with ⟨fault, hFault, hUnopened⟩ | ⟨lead, t, hSplit, hMore, hRest⟩
    · exact .inl ⟨fault, hFault, hUnopened.append_left (hInner s)⟩
    · refine .inr ⟨run ++ lead, t, ?_, ?_, hRest⟩
      · rw [hRun, hSplit, List.append_assoc]
      · intro c hc
        rcases List.mem_append.mp hc with hLeft | hRight
        · exact hLead c hLeft
        · exact hMore c hRight

/-- A demanded brace is there, or the reader stops where it should be. -/
theorem opens_demand (s : List Char) :
    Opens (demand '\x7b' .openBrace .subMessageOpen) s := by
  by_cases hHead : s.head? = some '\x7b'
  · -- the brace is taken, and nothing but it
    obtain ⟨t, rfl⟩ := List.head?_eq_some_iff.mp hHead
    have hAccepts : (demand '\x7b' .openBrace .subMessageOpen).Accepts ('\x7b' :: t)
        () t :=
      accepts_demand.mpr rfl
    exact .inr ⟨[], t, rfl, by simp, by rw [hAccepts.2]⟩
  · -- the reader stops here without logging anything
    have hStops : (demand '\x7b' .openBrace .subMessageOpen).Stops s _ s :=
      stops_demand.mpr ⟨hHead, rfl, rfl⟩
    have hLog : ((demand '\x7b' .openBrace .subMessageOpen).run s).tokens = [] := by
      simp [demand, Reply.andThen, require, hHead, reject]
    refine .inl ⟨_, hStops.1, ?_, .inr rfl⟩
    simp [hLog]

/-- A case opens its body after a word and blanks, or lacks the selector or the brace. -/
theorem opens_caseEntry (body : Reader Message) (s : List Char) :
    Opens (caseEntry body) s := by
  refine Opens.after (logsInner_name (by decide) _)
    (fun fault t hStops => ?_) fun w t hWord => ⟨?_, ?_⟩
  · exact (stops_name.mp hStops).2.1.symm
  · refine Opens.after logsInner_space
      (fun fault u hStops => absurd hStops not_stops_space)
      fun _ u hBlanks => ⟨(opens_demand u).bind _, ?_⟩
    obtain ⟨run, hRun⟩ := accepts_space.mp hBlanks
    exact ⟨run, hRun.split, fun c hc => .inr (hRun.inside c hc)⟩
  · obtain ⟨hRun, -⟩ := accepts_name.mp hWord
    exact ⟨_, hRun.split, fun c hc => .inl (hRun.inside c hc)⟩

/-- A case list that is not empty opens the body of its first case. -/
theorem opens_caseList (body : Body) (construct : String)
    (poundIsNumber requireOther : Bool) {s : List Char}
    (hGoesOn : closesHere s = false) :
    Opens (caseList body construct poundIsNumber requireOther) s := by
  have hList : Opens (untilClose (caseItem (body poundIsNumber))) s := by
    rw [Opens, untilClose_run, if_neg (by simp [hGoesOn])]
    exact (opens_caseEntry (body poundIsNumber) s).bind _
  exact hList.bind _

/-- A text that is read at least as far as the scan of its style went has the same
style whatever comes after the next character. -/
theorem ofSource_append {s x r t' : List Char} (hSplit : x ++ r = s)
    (hFar : r.length ≤ (StyleScan.ofSource s).stop.length) (hHead : t'.head? = r.head?) :
    (StyleScan.ofSource (x ++ t')).glyphs = (StyleScan.ofSource s).glyphs ∧
      (StyleScan.ofSource (x ++ t')).stop.head? = (StyleScan.ofSource s).stop.head? := by
  -- what was read is what the scan covered and some text after it
  have hSource := Stretch.source_append_rest Dialect.style false s
  have hFar' : r.length ≤ (Dialect.style.scan false s).rest.length := hFar
  obtain ⟨y, hRest⟩ : r <:+ (Dialect.style.scan false s).rest :=
    List.suffix_of_suffix_length_le ⟨x, hSplit⟩ ⟨_, hSource⟩ hFar'
  have hRead : x = Glyph.sourceOf (Dialect.style.scan false s).glyphs ++ y := by
    rw [← hRest, ← List.append_assoc] at hSource
    exact List.append_cancel_right (hSplit.trans hSource.symm)
  have hStop : (y ++ t').head? = (Dialect.style.scan false s).rest.head? := by
    rw [head?_append_congr hHead, hRest]
  have hScan := Dialect.style.scan_sourceOf_append false s hStop
  rw [← List.append_assoc, ← hRead] at hScan
  -- the glyphs and the stop are those of the scan, with the blanks at the end left out
  refine ⟨?_, ?_⟩
  · show Glyph.trimmed (Dialect.style.scan false (x ++ t')).glyphs = _
    rw [hScan]
    rfl
  · show (Dialect.style.scan false (x ++ t')).rest.head? = _
    rw [hScan]
    exact hStop

/-- Only blanks stand between a style and the brace that bounds it. -/
theorem exists_blanks_of_style {s v rest : List Char} (h : Style s v rest) :
    ∃ t, Blanks rest t ∧ ∀ b ∈ t.head?, isBrace b = true := by
  induction h with
  | last _ _ _ hBlanks hEnd => exact ⟨_, hBlanks, hEnd⟩
  | more _ _ _ ih => exact ih

/-- Where no blank stands in front, a style is empty only at the brace that ends it. -/
theorem stop_eq_of_value_isEmpty {s : List Char}
    (hStart : ∀ c ∈ s.head?, isBlank c = false)
    (hValue : (StyleScan.ofSource s).value.isEmpty = true) :
    (StyleScan.ofSource s).stop = s := by
  have hBlanks := blanks_stop s
  rw [StyleScan.source, glyphs_eq_nil_of_value hValue] at hBlanks
  rw [blanks_iff.mp hBlanks]
  show s.dropWhile isBlank = s
  cases s with
  | nil => rfl
  | cons c t => exact List.dropWhile_cons_of_neg (by simp [hStart c rfl])

/-- The closing brace is settled by the character it is looked for at. -/
theorem decided_close : close.Decided Exempt :=
  decided_space.andThen fun _ => decided_demand _ _ _

/-- A style that is not empty is settled by the brace that ends it. -/
theorem decided_commitStyle {s : List Char}
    (hValue : (StyleScan.ofSource s).value.isEmpty = false) :
    (commitStyle (StyleScan.ofSource s)).DecidedAt Exempt s := by
  refine ⟨tiles_commitStyle hValue, fun _ t' _ => ?_⟩
  have hJoined : Token.joined ((commitStyle (StyleScan.ofSource s)).run s).tokens =
      (StyleScan.ofSource s).source := by simp [Token.joined, commitStyle]
  rw [hJoined]
  simp only [commitStyle, List.drop_left]

/-- The reader of a style reads the scan only through its glyphs. -/
theorem styleOnly_congr {id type : String} {scan scan' : StyleScan}
    (hGlyphs : scan.glyphs = scan'.glyphs) :
    styleOnly id type scan = styleOnly id type scan' := by
  obtain ⟨glyphs, stop⟩ := scan
  obtain ⟨glyphs', stop'⟩ := scan'
  obtain rfl : glyphs = glyphs' := hGlyphs
  rfl

/-- A text that is read past its first brace has the same third part whatever comes
after that brace. -/
theorem thirdPart_eq_of_opens (body : Body) {id type : String} {lead t : List Char}
    (hLead : ∀ c ∈ lead, isWordChar c = true ∨ isBlank c = true)
    (hType : (!simpleTypes.contains type) = true) :
    thirdPart body id type (StyleScan.ofSource (lead ++ '\x7b' :: t)) =
      ownCases body id type := by
  have hStops : (StyleScan.ofSource (lead ++ '\x7b' :: t)).stopsAtOpenBrace = true :=
    stopsAtOpenBrace_iff.mpr ⟨t, firstBrace_of_lead hLead⟩
  rw [thirdPart, hStops, hType]
  rfl

/-- So has a text that is read at least as far as the scan of its style went,
whatever comes after the next character. -/
theorem thirdPart_eq_of_far (body : Body) {id type : String} {s x r t' : List Char}
    (hSplit : x ++ r = s) (hFar : r.length ≤ (StyleScan.ofSource s).stop.length)
    (hHead : t'.head? = r.head?) :
    thirdPart body id type (StyleScan.ofSource (x ++ t')) =
      thirdPart body id type (StyleScan.ofSource s) := by
  obtain ⟨hGlyphs, hStop⟩ := ofSource_append hSplit hFar hHead
  rw [thirdPart, thirdPart, StyleScan.stopsAtOpenBrace, StyleScan.stopsAtOpenBrace, hStop,
    styleOnly_congr hGlyphs]

/-- A style alone, empty or not, is settled by the character after what it read. -/
theorem decided_styleOnly (id type : String) (s : List Char) :
    (styleOnly id type (StyleScan.ofSource s)).DecidedAt Exempt s := by
  refine (decided_require _ _ s).andThen fun _ hRequire => ?_
  cases hValue : (StyleScan.ofSource s).value.isEmpty with
  | false => exact (decided_commitStyle hValue).andThen fun style _ => decided_checked _ _
  | true => simp [hValue, require, reject] at hRequire

/-- A reader that looks for the closing brace last is settled if the reader is. -/
theorem decided_andClose {p : Reader Element} {s : List Char} (h : p.DecidedAt Exempt s) :
    (andClose p).DecidedAt Exempt s :=
  h.andThen fun e _ => (decided_close.andThen fun _ => decided_pure e) _

/-- A style that is read is read up to the brace at which the scan stopped. -/
theorem length_rest_styleOnly_le {id type : String} {s : List Char}
    (hStart : ∀ c ∈ s.head?, isBlank c = false) :
    ((andClose (styleOnly id type (StyleScan.ofSource s))).run s).rest.length ≤
        (StyleScan.ofSource s).stop.length ∨
      ∃ cause, ((andClose (styleOnly id type (StyleScan.ofSource s))).run s).result =
        .error (.invalidNode cause) := by
  cases hValue : (StyleScan.ofSource s).value.isEmpty with
  | true =>
    -- nothing was read, and the brace that ends the style is the next character
    left
    rw [stop_eq_of_value_isEmpty hStart hValue]
    exact length_rest_le _ _
  | false =>
    -- committing a style that is not empty logs one token and then only checks the node
    have hFirst : ∀ node,
        Element.typed? id type (some (StyleScan.ofSource s).value) = node →
        (styleOnly id type (StyleScan.ofSource s)).run s =
          ⟨((checked node).run []).result,
            [⟨.style, String.ofList (StyleScan.ofSource s).source⟩],
            s.drop (StyleScan.ofSource s).source.length⟩ := by
      rintro node rfl
      rw [styleOnly, hValue]
      show (commitStyle (StyleScan.ofSource s) >>= fun style => _).run s = _
      cases Element.typed? id type (some (StyleScan.ofSource s).value) <;>
        simp [commitStyle, Reply.andThen, checked]
    cases hNode : Element.typed? id type (some (StyleScan.ofSource s).value) with
    | error cause =>
      -- the node is refused, whatever has been read
      right
      rw [andClose, run_bind_of_error (by rw [hFirst _ hNode]; rfl)]
      exact ⟨cause, rfl⟩
    | ok e =>
      -- the style was read, and the blanks after it reach up to the brace
      left
      rw [andClose, run_bind_of_ok (by rw [hFirst _ hNode]; rfl), hFirst _ hNode]
      refine Nat.le_trans (length_rest_bind_le _ _ _)
        (Nat.le_trans (length_rest_bind_le _ _ _) ?_)
      have hSpace : space.Accepts (s.drop (StyleScan.ofSource s).source.length) ()
          (StyleScan.ofSource s).stop :=
        accepts_space.mpr (blanks_stop s)
      rw [hSpace.2]

/-- What is exempt after a type: after a type of one's own, also the faults of a
list of cases that has not taken its first brace. -/
def ExemptAfter (type : String) : Exemption := fun tokens fault =>
  Exempt tokens fault ∨ isOwnType type = true ∧ Unopened tokens fault

/-- Tokens inside an argument can be put in front of the log of its exemption. -/
theorem ExemptAfter.append_left {type : String} {tokens before : List Token}
    {fault : Fault} (h : ExemptAfter type tokens fault)
    (hInner : ∀ token ∈ before, token.kind.isInner = true) :
    ExemptAfter type (before ++ tokens) fault := by
  rcases h with hExempt | ⟨hOwn, hUnopened⟩
  · exact .inl (hExempt.append_left before)
  · exact .inr ⟨hOwn, hUnopened.append_left hInner⟩

/-- A step that logs only tokens inside an argument keeps the exemption of what comes after it. -/
theorem DecidedAt.inner {α β : Type} {p : Reader α} {next : α → Reader β}
    {s : List Char} {type : String} (hFirst : p.DecidedAt Exempt s)
    (hInner : p.LogsInner)
    (hNext : ∀ a, p.Accepts s a (p.run s).rest →
      (next a).DecidedAt (ExemptAfter type) (p.run s).rest) :
    (p >>= next).DecidedAt (ExemptAfter type) s :=
  hFirst.bind (fun a hOk => hNext a ⟨hOk, rfl⟩) (fun _ _ => Or.inl) fun _ _ _ _ h =>
    h.append_left (hInner s)

/-- A list of cases of one's own is begun only where there is something to read. -/
theorem closesHere_eq_false_of_stopsAtOpenBrace {s : List Char}
    (hStops : (StyleScan.ofSource s).stopsAtOpenBrace = true) : closesHere s = false := by
  obtain ⟨t, v, hPassage⟩ := stopsAtOpenBrace_iff.mp hStops
  cases hPassage with
  | stop => rfl
  | more hNoBrace =>
    refine beq_false_of_ne ?_
    rintro rfl
    exact absurd hNoBrace (by decide)

section
variable {body : Body} (hBody : ∀ poundIsNumber, (body poundIsNumber).Decided Exempt)
include hBody

/-- A style or a list of cases of one's own, and the closing brace after it. -/
theorem decided_styleArgument {id type : String} (hPlain : takesCases type = false)
    {s : List Char} (hStart : ∀ c ∈ s.head?, isBlank c = false) :
    (andClose (styleArgument body id type)).DecidedAt (ExemptAfter type) s := by
  have hRun := run_andClose_styleArgument body id type
  -- the scan finds an opening brace for cases of one's own, or the end of a style
  by_cases hList :
      ((StyleScan.ofSource s).stopsAtOpenBrace && !simpleTypes.contains type) = true
  · have hThird :
        thirdPart body id type (StyleScan.ofSource s) = ownCases body id type :=
      if_pos hList
    obtain ⟨hStops, hType⟩ := Bool.and_eq_true_iff.mp hList
    have hOwn : isOwnType type = true := by rw [isOwnType, hPlain, hType]; rfl
    have hCases : (andClose (ownCases body id type)).DecidedAt Exempt s :=
      decided_andClose (((decided_caseList hBody _ _ _).andThen fun _ =>
        decided_checked _) s)
    have hOpens : Opens (andClose (ownCases body id type)) s :=
      ((opens_caseList body type false false
        (closesHere_eq_false_of_stopsAtOpenBrace hStops)).bind _).bind _
    refine (hCases.mono fun _ _ => Or.inl).of_run_eq
      (by rw [hRun, hThird]) fun hNotExempt t' _ => ?_
    -- the first brace has been read, and it is the one at which the scan stops
    obtain ⟨lead, u, hLead, hRead⟩ := hOpens.exists_lead hCases.tiles.joined_append_rest
      fun fault hFault hUnopened => hNotExempt fault hFault (.inr ⟨hOwn, hUnopened⟩)
    rw [hRun, hRead, List.append_assoc, List.cons_append,
      thirdPart_eq_of_opens body hLead hType]
  · have hThird : thirdPart body id type (StyleScan.ofSource s) =
        styleOnly id type (StyleScan.ofSource s) := if_neg hList
    have hStyled := decided_andClose (decided_styleOnly id type s)
    refine (hStyled.mono fun _ _ => Or.inl).of_run_eq (by rw [hRun, hThird])
      fun hNotExempt t' hHead => ?_
    -- the style was read as far as it was scanned, unless the node was refused
    rcases length_rest_styleOnly_le hStart with hFar | ⟨cause, hCause⟩
    · rw [hRun, thirdPart_eq_of_far body hStyled.tiles.joined_append_rest hFar hHead,
        hThird]
    · exact absurd (.inl .invalidNode) (hNotExempt _ hCause)

/-- The argument of a placeholder is settled for each kind of type: plural, select, or a style. -/
theorem decided_argument {id type : String} {s : List Char}
    (hStart : ∀ c ∈ s.head?, isBlank c = false) :
    (andClose (argument body id type)).DecidedAt (ExemptAfter type) s := by
  unfold argument
  -- by the type: plural, select, or any other
  split
  · next kind _ =>
    exact (decided_andClose (decided_pluralArgument hBody id kind s)).mono fun _ _ =>
      Or.inl
  · next hKind =>
    by_cases hSelect : type = selectType
    · rw [if_pos hSelect]
      exact (decided_andClose (decided_selectArgument hBody id s)).mono fun _ _ => Or.inl
    · rw [if_neg hSelect]
      have hPlain : takesCases type = false := by
        simp [takesCases, isPluralType, hKind, hSelect]
      exact decided_styleArgument hBody hPlain hStart

/-- All that may follow a type is settled, apart from the exemption the type brings. -/
theorem decided_afterType (id type : String) :
    (afterType body id type).Decided (ExemptAfter type) := by
  intro s
  have hSeparator : separator.LogsInner :=
    logsInner_peek.bind fun _ => (logsInner_require _ _).bind fun _ =>
      logsInner_take (by decide)
  refine DecidedAt.inner (decided_space s) logsInner_space fun _ _ => ?_
  refine DecidedAt.inner (decided_peek _) logsInner_peek fun next _ => ?_
  split
  · -- a closing brace, or the comma before the third part
    exact (((decided_require _ _).andThen fun _ => (decided_take _).andThen fun _ =>
      decided_checked _) _).mono fun _ _ => Or.inl
  · refine DecidedAt.inner (decided_demand _ _ _ _) hSeparator fun _ _ => ?_
    refine DecidedAt.inner (decided_space _) logsInner_space fun _ hSpace => ?_
    obtain ⟨run, hRun⟩ := accepts_space.mp hSpace
    exact decided_argument hBody hRun.outside

/-- All that may follow an identifier is settled. -/
theorem decided_afterId (id : String) : (afterId body id).Decided Exempt := by
  refine decided_space.andThen fun _ => decided_peek.andThen fun next => ?_
  split
  · exact (decided_take _).andThen fun _ => decided_checked _
  · refine (decided_demand _ _ _).andThen fun _ => decided_space.andThen fun _ s => ?_
    refine (decided_name .type .placeholderType s).bind
      (fun type _ => decided_afterType hBody id type _)
      (fun _ _ h => h) fun type tokens fault hType h => ?_
    rcases h with hExempt | ⟨hOwn, hUnopened⟩
    · exact hExempt.append_left _
    · -- the log of the type itself is its token
      rw [tokens_run_name ⟨hType, rfl⟩]
      show Exempt ([] ++ ⟨.type, type⟩ :: tokens) fault
      exact .unopened hOwn hUnopened

/-- A placeholder is settled. -/
theorem decided_placeholder : (placeholder body).Decided Exempt :=
  decided_space.andThen fun _ => (decided_name _ _).andThen fun id =>
    decided_afterId hBody id

/-- An element is settled, whichever of the four kinds it is. -/
theorem decided_element (poundIsNumber : Bool) :
    (element body poundIsNumber).Decided Exempt := by
  refine decided_peek.andThen fun next => ?_
  split
  · exact (decided_take _).andThen fun _ => decided_placeholder hBody
  · split
    · exact (decided_take _).andThen fun _ => decided_pure _
    · exact (decided_text _).andThen fun _ => decided_pure _
  · exact (decided_text _).andThen fun _ => decided_pure _

/-- The elements of a message are settled. -/
theorem decided_elements (cx : Context) : (elements body cx).Decided Exempt :=
  (decided_untilClose (elementItem body _) (decided_element hBody _)).andThen fun _ =>
    decided_peek.andThen fun _ => (decided_require _ _).andThen fun _ => decided_pure _

end

/-- The reply of a message reader is settled by what was read and by the next
character, unless it is an error that is exempt. -/
theorem decided_message (cx : Context) : (message cx).Decided Exempt :=
  message_of_parts (P := fun p => p.Decided Exempt) (fun _ => decided_fail _)
    (fun _ hBody => hBody.andThen fun _ =>
      (decided_demand _ _ _).andThen fun _ => decided_pure _)
    (fun _ cx hBody => decided_elements hBody cx) cx

end Grammar

/-! ## Whole parses -/

/-- What is said about a violation depends on the text up to the next character. -/
theorem Violation.diagnostic_congr (cause : Violation) {c c' : Cursor}
    (hPos : c.pos = c'.pos) (hBefore : c.before = c'.before)
    (hCurrent : c.current? = c'.current?) :
    cause.diagnostic c = cause.diagnostic c' := by
  have hFound : c.found = c'.found := by rw [Cursor.found, Cursor.found, hCurrent]
  have hAtEnd : ∀ d : Cursor, d.isAtEnd = d.current?.isNone := by
    intro d
    rw [Cursor.current?, Cursor.rest, Cursor.isAtEnd, ← String.length_toList,
      Bool.eq_iff_iff]
    simp
  have hSpan : c.span = c'.span := by
    simp only [Cursor.span, Cursor.line, Cursor.column, Cursor.lineStart, hAtEnd, hPos,
      hBefore, hCurrent]
  -- the diagnostic is made of the found text and the span, which are the same
  cases cause <;> simp only [Violation.diagnostic, hFound, hSpan]

/-- Whether the log ends in an argument type of one's own with no brace after it. -/
def endsInOwnType (log : List Token) : Bool :=
  match log.reverse.dropWhile fun token => token.kind.isInner with
  | ⟨.type, type⟩ :: _ => isOwnType type
  | _ => false

/-- A log whose last outer token is the type ends in that type, whatever inner tokens follow it. -/
theorem endsInOwnType_of_split {before inner : List Token} {type : String}
    (hOwn : isOwnType type = true)
    (hInner : ∀ token ∈ inner, token.kind.isInner = true) :
    endsInOwnType (before ++ ⟨.type, type⟩ :: inner) = true := by
  -- seen from its end, the log has the inner tokens first
  have hDrop : (before ++ ⟨.type, type⟩ :: inner).reverse.dropWhile
      (fun token => token.kind.isInner) =
        ⟨.type, type⟩ :: before.reverse := by
    rw [List.reverse_append, List.reverse_cons, List.append_assoc,
      List.dropWhile_append_of_pos]
    · exact List.dropWhile_cons_of_neg (by simp [Token.Kind.isInner])
    · intro token hToken
      exact hInner token (List.mem_reverse.mp hToken)
  rw [endsInOwnType, hDrop]
  exact hOwn

/-- The errors that more text could change: that an offset has too many digits; and,
where the log ends in an argument type of one's own with no brace after it, that a
list of cases lacks a selector or the brace after it. The list was begun because of
a brace further on. -/
def SyntaxError.readsAhead (log : List Token) (e : SyntaxError) : Bool :=
  e.diagnostic.code == .offsetOutOfRange ||
    endsInOwnType log && [some Expectation.selector.text,
      some Expectation.subMessageOpen.text].contains
      e.expected

/-- A fault that is exempt in the logic of readers is one that `readsAhead` tells from its error. -/
theorem SyntaxError.readsAhead_of_exempt {log : List Token} {cause : Violation}
    (c : Cursor) (h : Exempt log (.violation cause)) :
    (SyntaxError.ofViolation cause c).readsAhead log = true := by
  cases h with
  | offset => rfl
  | unopened hOwn hUnopened =>
    obtain ⟨hInner, hFault⟩ := hUnopened
    rw [SyntaxError.readsAhead, endsInOwnType_of_split hOwn hInner]
    -- the two violations at which cases are told from a style
    rcases hFault with hSelector | hOpen
    · obtain rfl : cause = .expected .selector := by simpa using hSelector
      simp [SyntaxError.ofViolation, Violation.diagnostic, Diagnostic.expectedToken,
        SyntaxError.expected]
    · obtain rfl : cause = .expected .subMessageOpen := by simpa using hOpen
      simp [SyntaxError.ofViolation, Violation.diagnostic, Diagnostic.expectedToken,
        SyntaxError.expected]

namespace Parser

/-- A pattern that goes on as another one up to the character at which the other is
rejected gets the reply that the other one got. -/
theorem reply_of_toList_eq {p : Parser} {s s' : String} {cause : Violation} {c : Char}
    {t u : List Char} (hResult : (p.reply s).result = .error (.violation cause))
    (hRest : (p.reply s).rest = c :: t)
    (hSettled : (SyntaxError.ofViolation cause (p.stoppedAt s)).readsAhead
      (p.reply s).tokens = false)
    (hText : s'.toList = Token.joined (p.reply s).tokens ++ c :: u) :
    p.reply s' = ⟨(p.reply s).result, (p.reply s).tokens, c :: u⟩ := by
  -- the error is settled, so the reader has no exemption to claim
  have hNotExempt : ∀ fault, (p.reply s).result = .error fault →
      ¬Exempt (p.reply s).tokens fault := by
    intro fault hFault hExempt
    obtain rfl : .violation cause = fault := Except.error.inj (hResult.symm.trans hFault)
    have hAhead := SyntaxError.readsAhead_of_exempt (p.stoppedAt s) hExempt
    exact absurd (hAhead.symm.trans hSettled) (by decide)
  have hHead : (c :: u).head? = (p.reply s).rest.head? := by rw [hRest]; rfl
  rw [reply, hText]
  exact (Grammar.decided_message p.rootContext s.toList).keeps hNotExempt (c :: u) hHead

/-- Replies with the same log, before the same character, stop where the same is
said of a violation. -/
theorem diagnostic_stoppedAt_congr {p : Parser} {s s' : String} {c : Char}
    {t u : List Char} (cause : Violation) (hRest : (p.reply s).rest = c :: t)
    (hReply : p.reply s' = ⟨(p.reply s).result, (p.reply s).tokens, c :: u⟩) :
    cause.diagnostic (p.stoppedAt s') = cause.diagnostic (p.stoppedAt s) := by
  have hTiles := (p.reply_tiles s).joined_append_rest
  have hTiles' := (p.reply_tiles s').joined_append_rest
  rw [hRest] at hTiles
  rw [hReply] at hTiles'
  have hPos : (p.stoppedAt s').pos = (p.stoppedAt s).pos := by
    rw [stoppedAt, hReply]
    rfl
  -- both sources agree up to the stop and at the one character after it
  have hBefore : ∀ more : List Char, (Token.joined (p.reply s).tokens ++ c :: more).take
      (p.stoppedAt s).pos = Token.joined (p.reply s).tokens :=
    fun more => List.take_left' rfl
  have hFrom : ∀ more : List Char, (Token.joined (p.reply s).tokens ++ c :: more).drop
      (p.stoppedAt s).pos = c :: more := fun more => List.drop_left' rfl
  -- the place, the text before it, and the character at it are the same
  refine cause.diagnostic_congr hPos ?_ ?_
  · show s'.toList.take (p.stoppedAt s').pos = s.toList.take (p.stoppedAt s).pos
    rw [hPos, ← hTiles, ← hTiles', hBefore, hBefore]
  · show (s'.toList.drop (p.stoppedAt s').pos).head? =
      (s.toList.drop (p.stoppedAt s).pos).head?
    rw [hPos, ← hTiles, ← hTiles', hFrom, hFrom]
    rfl

/-- **An error is decided by the text up to and including the character at which it
is raised.** Without a limit on the length of patterns, a pattern that is rejected
in front of some character is rejected with the same diagnostic and the same log
whatever text follows that character. The errors that are raised because of a brace
further on, and the one for an offset with too many digits, are left out. -/
theorem parseInto_take_append (p : Parser) (hLength : p.maxLength ≤ 0) (s : String)
    (e : SyntaxError) (hRejected : p.parse (.text s) = .error (.rejected e))
    (hInside : e.offset < s.length)
    (hSettled : e.readsAhead (p.parseInto (.text s) []).2 = false) (u : String)
    (log : List Token) :
    p.parseInto (.text (String.ofList (s.toList.take (e.offset + 1)) ++ u)) log =
      (.error (.rejected
          ⟨e.diagnostic, String.ofList (s.toList.take (e.offset + 1)) ++ u⟩),
        (p.parseInto (.text s) log).2) := by
  -- no text is too long for a parser without a limit
  have hShort : ∀ source : String,
      ¬(0 < p.maxLength ∧ p.maxLength < (PatternValue.text source).toText.length) := by
    rintro source ⟨hLimited, -⟩
    omega
  have hParse : ∀ (source : String) (log : List Token), p.parseInto (.text source) log =
      ((p.reply source).result.mapError (Failure.ofFault (p.stoppedAt source)),
        log ++ (p.reply source).tokens) :=
    fun source log => parseInto_of_short (hShort source) log
  obtain ⟨cause, hResult, hE⟩ := (parse_eq_rejected_iff (hShort s)).mp hRejected
  change (p.reply s).result = .error (.violation cause) at hResult
  change e = .ofViolation cause (p.stoppedAt s) at hE
  have hOffset : e.offset = (p.stoppedAt s).pos := by
    rw [hE, SyntaxError.offset_ofViolation]
  have hDiagnostic : e.diagnostic = cause.diagnostic (p.stoppedAt s) := by rw [hE]; rfl
  rw [hParse, List.nil_append, hE] at hSettled
  rw [hOffset] at hInside ⊢
  -- the character at which the error is raised
  have hTiles := (p.reply_tiles s).joined_append_rest
  obtain ⟨c, t, hRest⟩ : ∃ c t, (p.reply s).rest = c :: t := by
    cases hRest : (p.reply s).rest with
    | nil =>
      rw [hRest, List.append_nil] at hTiles
      have hLess : (Token.joined (p.reply s).tokens).length < s.length := hInside
      rw [hTiles, String.length_toList] at hLess
      omega
    | cons c t => exact ⟨c, t, rfl⟩
  -- the kept part of the source: what was logged and that character
  have hTake : s.toList.take ((p.stoppedAt s).pos + 1) =
      Token.joined (p.reply s).tokens ++ [c] := by
    have hSplit : s.toList = (Token.joined (p.reply s).tokens ++ [c]) ++ t := by
      rw [← hTiles, hRest]
      simp
    rw [hSplit]
    exact List.take_left' (by simp [stoppedAt])
  rw [hTake]
  -- the reader stops at that character of the other text too, with the same log
  generalize hOther : String.ofList (Token.joined (p.reply s).tokens ++ [c]) ++ u = s'
  have hText : s'.toList = Token.joined (p.reply s).tokens ++ c :: u.toList := by
    simp [← hOther]
  have hReply := reply_of_toList_eq hResult hRest hSettled hText
  have hSame := diagnostic_stoppedAt_congr cause hRest hReply
  rw [hParse, hParse, hDiagnostic, ← hSame, hReply, hResult]
  rfl

/-- A case lacks its brace: that is settled at the comma, so the pattern may as well
end there. -/
theorem parseInto_take_append_of_lacking_brace :
    (Parser.mk 0 1).parse (.text "\x7bn, plural, one, two\x7d") = .error (.rejected
      (.ofViolation (.expected .subMessageOpen) ⟨"\x7bn, plural, one, two\x7d", 15⟩)) ∧
    (Parser.mk 0 1).parseInto
        (.text (String.ofList ("\x7bn, plural, one, two\x7d".toList.take 16) ++ "")) [] =
      (.error (.rejected ⟨Violation.diagnostic ⟨"\x7bn, plural, one, two\x7d", 15⟩
          (.expected .subMessageOpen),
          String.ofList ("\x7bn, plural, one, two\x7d".toList.take 16) ++ ""⟩),
        ((Parser.mk 0 1).parseInto (.text "\x7bn, plural, one, two\x7d") []).2) :=
  ⟨by decide +kernel, parseInto_take_append ⟨0, 1⟩ (by decide)
    "\x7bn, plural, one, two\x7d"
    (.ofViolation (.expected .subMessageOpen) ⟨"\x7bn, plural, one, two\x7d", 15⟩)
    (by decide +kernel) (by decide +kernel) (by decide +kernel) "" []⟩

end Parser

end MessagePattern
