import MessagePattern.Proofs.Completion
import MessagePattern.Proofs.WellFormed

/-!
# Writing a message as a pattern

Every well-formed message is what some pattern stands for, and here is such a pattern.

* Text is quoted from the first character on that could be quoted, in one run to the end
  of the text; before it apostrophes are only doubled. The run is closed, and what follows
  a text never begins with an apostrophe, so nothing after it changes its meaning. Styles
  are written in the same way; there every character can be quoted.
* A plural placeholder always gets its offset clause, so a first selector that looks like
  one is not taken for it.

Definitions and results:

* `Dialect.written` — text or a style, with its quoting;
* `Message.written`, `Message.pattern` — a message as the text of a pattern;
* `Declared.passage_written`, `Declared.style_written` — text and styles are read back;
* `Declared.elements_written`, `Declared.messageAt_written` — so are messages;
* `Parser.parse_pattern` — the pattern of a well-formed message parses to it.
-/

namespace MessagePattern

/-! ## Writing -/

namespace Dialect

/-- Text with every apostrophe doubled. -/
def doubled : List Char → List Char
  | [] => []
  | c :: t => if c = '\'' then '\'' :: '\'' :: doubled t else c :: doubled t

/-- Text as the dialect writes it: in a quoted run from the first character on that can be
quoted. -/
def written (d : Dialect) : List Char → List Char
  | [] => []
  | c :: t =>
    if c = '\'' then '\'' :: '\'' :: d.written t
    else if d.opens c then '\'' :: (doubled (c :: t) ++ ['\''])
    else c :: d.written t

end Dialect

/-- A text in braces. -/
def braced (s : List Char) : List Char :=
  '\x7b' :: (s ++ ['\x7d'])

/-- The name of an argument, its type and the third part of its placeholder. -/
def threeParts (id type : String) (third : List Char) : List Char :=
  id.toList ++ ',' :: (type.toList ++ ',' :: third)

/-- An offset clause, with a blank between it and what follows. -/
def offsetWritten (offset : Nat) : List Char :=
  "offset:".toList ++ (Nat.toDigits 10 offset ++ [' '])

mutual

/-- An element as the text of a pattern. -/
def Element.written (poundIsNumber : Bool) : Element → List Char
  | .text value => (Dialect.text poundIsNumber).written value.toList
  | .pound => ['#']
  | .simple id => braced id.toList
  | .typed id type none => braced (id.toList ++ ',' :: type.toList)
  | .typed id type (some style) =>
    braced (threeParts id type (Dialect.style.written style.toList))
  | .plural id kind offset cases =>
    braced (threeParts id kind.name (offsetWritten offset ++ Case.allWritten true cases))
  | .select id type cases => braced (threeParts id type (Case.allWritten false cases))

/-- Cases, one after another, as the text of a pattern. -/
def Case.allWritten (poundIsNumber : Bool) : List (Case Element) → List Char
  | [] => []
  | c :: cases => Case.written poundIsNumber c ++ Case.allWritten poundIsNumber cases

/-- A case as the text of a pattern. -/
def Case.written (poundIsNumber : Bool) : Case Element → List Char
  | ⟨selector, m⟩ => selector.toList ++ braced (Message.written poundIsNumber m)

/-- A message as the text of a pattern. -/
def Message.written (poundIsNumber : Bool) : List Element → List Char
  | [] => []
  | e :: m => Element.written poundIsNumber e ++ Message.written poundIsNumber m

end

/-- A pattern for a message. -/
def Message.pattern (m : Message) : String := String.ofList (Message.written false m)

example : Message.pattern [.text "it's \x7b'", .typed "a" "t" (some "'\x7d"),
    .plural "n" .cardinal 0 [⟨"offset:1", [.text "#", .pound]⟩, ⟨"other", []⟩]] =
    "it''s '\x7b'''\x7ba,t,'''\x7d'\x7d" ++
      "\x7bn,plural,offset:0 offset:1\x7b'#'#\x7dother\x7b\x7d\x7d" := by decide +kernel

theorem braced_append (s k : List Char) :
    braced s ++ k = '\x7b' :: (s ++ '\x7d' :: k) := by
  simp [braced]

theorem threeParts_append (id type : String) (third k : List Char) :
    threeParts id type third ++ k = threeParts id type (third ++ k) := by
  simp [threeParts]

namespace Declared

/-! ## Text and styles are read back -/

/-- Within a run, a pair stands for an apostrophe and any other character for itself. -/
theorem quoted_doubled {rest : List Char} (hRest : rest.head? ≠ some '\'')
    (v : List Char) : Quoted (Dialect.doubled v ++ '\'' :: rest) v rest := by
  induction v with
  | nil => exact .close hRest
  | cons c v ih =>
    rw [Dialect.doubled]
    by_cases hQuote : c = '\''
    · subst hQuote
      rw [if_pos rfl]
      exact .pair ih
    · rw [if_neg hQuote]
      exact .char hQuote ih

/-- A run in quotation marks stands for what is doubled in it, unless a further apostrophe follows. -/
theorem piece_doubled {opens : Char → Bool} {c : Char} {v rest : List Char}
    (hChar : c ≠ '\'') (hOpens : opens c = true) (hRest : rest.head? ≠ some '\'') :
    Piece opens ('\'' :: (Dialect.doubled (c :: v) ++ ['\'']) ++ rest) (c :: v) rest := by
  have hQuoted := quoted_doubled hRest (c :: v)
  rw [Dialect.doubled, if_neg hChar] at hQuoted ⊢
  simpa using .quoted hChar hOpens hQuoted

section
variable {d : Dialect} (hQuote : d.stops '\'' = false)
include hQuote

/-- No apostrophe stops a scan, so what stops one is none. -/
theorem head?_ne_quote {rest : List Char} (hRest : ∀ c ∈ rest.head?, d.stops c = true) :
    rest.head? ≠ some '\'' := by
  intro hHead
  exact absurd ((hRest '\'' hHead).symm.trans hQuote) (by decide)

/-- Written text is a passage up to any text at which a passage may end. -/
theorem passage_written (hOpens : ∀ c, d.stops c = true → d.opens c = true)
    {rest : List Char} (hRest : ∀ c ∈ rest.head?, d.stops c = true) (v : List Char) :
    Passage d.stops d.opens (d.written v ++ rest) v rest := by
  -- by induction on the text, up to the character that opens the run
  induction v with
  | nil => exact .stop hRest
  | cons c v ih =>
    rw [Dialect.written]
    by_cases hPair : c = '\''
    · subst hPair
      rw [if_pos rfl]
      exact .more hQuote .pair ih
    · rw [if_neg hPair]
      cases hCan : d.opens c with
      | true =>
        -- the rest of the text is one quoted run
        have hPiece := piece_doubled (v := v) hPair hCan (head?_ne_quote hQuote hRest)
        rw [if_pos rfl]
        simpa using Passage.more hQuote hPiece (.stop hRest)
      | false =>
        -- a character at which a passage stops could be quoted
        have hGoesOn : d.stops c = false := by
          cases hStops : d.stops c with
          | true => exact absurd ((hOpens c hStops).symm.trans hCan) (by decide)
          | false => rfl
        rw [if_neg (by decide)]
        exact .more hGoesOn (.plain hPair) ih

end

/-- A written style ends in front of blanks and a brace: its last piece begins with an
apostrophe, so it is no blank. -/
theorem style_written {v rest t : List Char} (hNonempty : v ≠ []) (hBlanks : Blanks rest t)
    (hBrace : ∀ b ∈ t.head?, isBrace b = true) :
    Style (Dialect.style.written v ++ rest) v rest := by
  have hNoQuote := head?_ne_quote_of_blanks hBlanks hBrace
  -- by induction on the style: pairs, and at the end a pair or a quoted run
  induction v with
  | nil => exact absurd rfl hNonempty
  | cons c v ih =>
    rw [Dialect.written]
    by_cases hPair : c = '\''
    · subst hPair
      rw [if_pos rfl]
      cases v with
      -- the pair at the end, or a pair with more after it
      | nil => exact .last (by decide) (by decide) .pair hBlanks hBrace
      | cons b v => exact .more (by decide) .pair (ih (by simp))
    · rw [if_neg hPair, if_pos (show Dialect.style.opens c = true from rfl)]
      exact .last (by decide) (by decide) (piece_doubled hPair rfl hNoQuote) hBlanks hBrace

/-! ## Placeholders are read back -/

/-- A word is read as it stands, before what does not go on with it. -/
theorem word_written {w : String} (hWord : IsWord w) {rest : List Char}
    (hRest : Outside isWordChar rest) : Word (w.toList ++ rest) w rest :=
  ⟨⟨rfl, hWord.2, hRest⟩, hWord.1⟩

/-- No blanks are read in front of a word. -/
theorem blanks_written {w : String} (hWord : IsWord w) {rest : List Char}
    (hRest : Outside isWordChar rest) :
    Blanks (w.toList ++ rest) (w.toList ++ rest) :=
  blanks_self (Grammar.outside_isBlank_of_word (word_written hWord hRest))

/-- The first two parts of a placeholder are read back in front of the third. -/
theorem header_written {id type : String} (hId : IsWord id) (hType : IsWord type)
    {third rest : List Char} (hThird : Blanks third rest) :
    Header id type (threeParts id type third) rest := by
  have hComma : ∀ t, Outside isWordChar (',' :: t) := outside_cons (by decide)
  have hMark : ∀ t, Mark ',' (',' :: t) t := fun t =>
    blanks_self (outside_cons (by decide) t)
  exact ⟨_, _, _, _, _, _, blanks_written hId (hComma _), word_written hId (hComma _),
    hMark _, blanks_written hType (hComma _), word_written hType (hComma _), hMark _,
    hThird⟩

/-- No digit is a blank. -/
theorem isBlank_of_isDigit {c : Char} (h : c.isDigit = true) : isBlank c = false := by
  obtain ⟨hLower, hUpper⟩ := toNat_of_isDigit h
  -- the digits lie between two of the ranges
  simp only [isBlank, blankRanges, List.any_cons, List.any_nil, Bool.or_false,
    Bool.or_eq_false_iff, Bool.and_eq_false_iff, decide_eq_false_iff_not]
  omega

/-- A clause ends at the blank after it, whatever the first selector looks like. -/
theorem offset_written {n : Nat} (hShort : (Nat.toDigits 10 n).length ≤ Numeral.maxDigits)
    {rest : List Char} (hRest : Outside isBlank rest) :
    Offset (offsetWritten n ++ rest) n rest := by
  -- the decimal digits of a number read as the number
  have hValue : Nat.ofDigits 10
      ((Nat.toDigits 10 n).reverse.map fun c => c.toNat - '0'.toNat) = n := by
    rw [← Reader.value_eq_ofDigits]
    exact Nat.ofDigitChars_toDigits (by decide) (by decide)
  have hDigits : ∀ c ∈ Nat.toDigits 10 n, c.isDigit = true := fun c hc =>
    Nat.isDigit_of_mem_toDigits (by decide) (by decide) hc
  have hFew : (Nat.toDigits 10 n).length ≤ 4300 := hShort
  -- a digit comes right after the colon, and a blank right after the digits
  have hFirst : Outside isBlank (Nat.toDigits 10 n ++ ' ' :: rest) := by
    have hSome : Nat.toDigits 10 n ≠ [] := Nat.toDigits_ne_nil
    obtain ⟨c, t, hText⟩ := List.exists_cons_of_ne_nil hSome
    rw [hText]
    exact outside_cons (isBlank_of_isDigit (hDigits c (by simp [hText]))) _
  -- the clause is the keyword, the digits and one blank
  have hText : offsetWritten n ++ rest =
      "offset:".toList ++ (Nat.toDigits 10 n ++ ' ' :: rest) := by
    unfold offsetWritten
    simp only [List.append_assoc, List.singleton_append]
  have hRun : Run Char.isDigit (Nat.toDigits 10 n ++ ' ' :: rest) (Nat.toDigits 10 n)
      (' ' :: rest) := ⟨rfl, hDigits, outside_cons (by decide) rest⟩
  have hBlank : Blanks (' ' :: rest) rest :=
    ⟨[' '], rfl, List.forall_mem_singleton.mpr (by decide), hRest⟩
  have hClause :=
    Offset.clause (blanks_self hFirst) hRun Nat.length_toDigits_pos hFew hBlank
  rw [hText]
  rwa [hValue] at hClause

/-- Cases that differ in their selectors are the merged cases of their entries. -/
theorem merged_entries {cases : List (Case Element)}
    (hDistinct : (cases.map (·.selector)).Nodup) :
    merged (cases.map fun c => (c.selector, c.message)) = cases := by
  have hKeys : ((cases.map fun c => (c.selector, c.message)).map (·.1)).Nodup := by
    rwa [List.map_map]
  rw [merged_eq_collapse, Keyed.collapse_of_nodup hKeys, List.map_map]
  exact List.map_id _

/-- Cases begin with a selector, or are none. -/
theorem Cases.outside_isBlank {body : Production Message} {s rest : List Char}
    {entries : List (String × Message)} (h : Cases body s entries rest)
    (hRest : Outside isBlank rest) : Outside isBlank s := by
  cases h with
  | nil => exact hRest
  | cons hWord => exact Grammar.outside_isBlank_of_word hWord

/-- A written style begins with an apostrophe. -/
theorem outside_isBlank_style {v : List Char} (hNonempty : v ≠ []) (k : List Char) :
    Outside isBlank (Dialect.style.written v ++ k) := by
  cases v with
  | nil => exact absurd rfl hNonempty
  | cons c v =>
    rw [Dialect.written]
    by_cases hPair : c = '\''
    · rw [if_pos hPair]
      exact outside_cons (by decide) _
    · rw [if_neg hPair, if_pos (show Dialect.style.opens c = true from rfl)]
      exact outside_cons (by decide) _

/-- A written offset does not begin with a blank. -/
theorem outside_isBlank_offset (n : Nat) (k : List Char) :
    Outside isBlank (offsetWritten n ++ k) := by
  have hKeyword : "offset:".toList = 'o' :: "ffset:".toList := by decide
  unfold offsetWritten
  rw [hKeyword]
  exact outside_cons (by decide) _

/-- What is written for elements that begin with no text begins with a special character,
as what follows them does. -/
theorem special_written {P : Bool → Message → Prop} {b : Bool} {m : Message}
    (hElements : ∀ e ∈ m, e.WellFormed P b)
    (hNext : ∀ next ∈ m.head?, next.isText = false)
    {rest : List Char} (hRest : ∀ c ∈ rest.head?, isSpecial b c = true) :
    ∀ c ∈ (Message.written b m ++ rest).head?, isSpecial b c = true := by
  cases m with
  | nil => exact hRest
  | cons e m =>
    -- what is written for an element that is no text begins with a brace or a pound sign
    obtain ⟨c, s, hWritten, hSpecial⟩ :
        ∃ c s, Element.written b e = c :: s ∧ isSpecial b c = true := by
      have hHere := hElements e (List.mem_cons_self ..)
      cases e with
      | text => exact absurd (hNext _ rfl) (by simp [Element.isText])
      | pound => exact ⟨'#', [], rfl, by rw [show b = true from hHere]; rfl⟩
      | typed id type style => cases style <;> exact ⟨'\x7b', _, rfl, rfl⟩
      | _ => exact ⟨'\x7b', _, rfl, rfl⟩
    rw [Message.written, hWritten]
    simpa using hSpecial

/-- An apostrophe does not end a text. -/
theorem special_quote (b : Bool) : (Dialect.text b).stops '\'' = false := by
  cases b <;> rfl

section
variable {R : Bool → Production Message} {P : Bool → Message → Prop}

/-- A placeholder with a third part is read back if the third part is. -/
theorem placeholder_of_argument {id type : String} (hId : IsWord id) (hType : IsWord type)
    {third k : List Char} {e : Element} (hThird : Outside isBlank (third ++ '\x7d' :: k))
    (h : Argument R id type (third ++ '\x7d' :: k) e k) :
    Placeholder R (threeParts id type third ++ '\x7d' :: k) e k := by
  rw [threeParts_append]
  exact .full (header_written hId hType (blanks_self hThird)) h

variable (hBody : ∀ b m, P b m → ∀ k,
  R b (Message.written b m ++ '\x7d' :: k) m ('\x7d' :: k))
include hBody

/-- Cases are read back if their messages are. -/
theorem cases_written {b : Bool} {cases : List (Case Element)}
    (hWord : ∀ c ∈ cases, IsWord c.selector) (hInBraces : ∀ c ∈ cases, P b c.message)
    (k : List Char) :
    Cases (R b) (Case.allWritten b cases ++ '\x7d' :: k)
      (cases.map fun c => (c.selector, c.message)) ('\x7d' :: k) := by
  -- by induction on the cases; each message is read back up to its closing brace
  induction cases with
  | nil => exact .nil
  | cons c cases ih =>
    have hMore := ih (fun c' hc => hWord c' (List.mem_cons_of_mem _ hc))
      fun c' hc => hInBraces c' (List.mem_cons_of_mem _ hc)
    have hMessage := hBody b c.message (hInBraces c (List.mem_cons_self ..))
    have hText : Case.allWritten b (c :: cases) ++ '\x7d' :: k =
        c.selector.toList ++ '\x7b' :: (Message.written b c.message ++
          '\x7d' :: (Case.allWritten b cases ++ '\x7d' :: k)) := by
      rw [Case.allWritten, Case.written, List.append_assoc, List.append_assoc,
        braced_append]
    rw [hText]
    -- the message is closed, and then comes another selector or the closing brace
    have hSelector := hWord c (List.mem_cons_self ..)
    exact .cons (word_written hSelector (outside_cons (by decide) _))
      (blanks_self (outside_cons (by decide) _)) (hMessage _)
      (blanks_self (hMore.outside_isBlank (outside_cons (by decide) k))) hMore

/-- The cases of a placeholder are read back where the text of its third part ends with
them. -/
theorem argument_written {id type : String} {cases : List (Case Element)}
    (hPlural : isPluralType type = false) (hNotSimple : type ∉ styledTypes)
    (hNonempty : cases ≠ [])
    (hOther : type = selectType → otherSelector ∈ cases.map (·.selector))
    (hCases : Case.AllWellFormed (P false) cases) (k : List Char) :
    Argument R id type (Case.allWritten false cases ++ '\x7d' :: k)
      (.select id type cases) k := by
  have hRead := cases_written hBody hCases.word hCases.inBraces k
  -- a select placeholder, or one of any other type
  by_cases hSelect : type = selectType
  · subst hSelect
    have hArgument : Argument R id selectType _ (.select id selectType (merged _)) k :=
      .select rfl hRead (by
        rw [List.map_map]
        exact hOther rfl)
    rwa [merged_entries hCases.distinct] at hArgument
  · have hPlain : type ∉ casedTypes :=
      Grammar.not_mem_casedTypes_iff.mpr ⟨by simpa [isPluralType] using hPlural, hSelect⟩
    -- the first case has the brace that sets cases apart from a style
    obtain ⟨t, hBrace⟩ : ∃ t, FirstBrace (Case.allWritten false cases ++ '\x7d' :: k)
        ('\x7b' :: t) := by
      obtain ⟨c, cases, rfl⟩ := List.exists_cons_of_ne_nil hNonempty
      exact Grammar.firstBrace_of_cases hRead
    have hArgument : Argument R id type _ (.select id type (merged _)) k :=
      .custom hPlain hNotSimple hBrace hRead
    rwa [merged_entries hCases.distinct] at hArgument

/-- A placeholder is read back whatever follows it. -/
theorem placeholder_written {b : Bool} {e : Element} (h : e.WellFormed P b)
    (hText : e.isText = false) (hPound : e ≠ .pound) :
    ∃ s, Element.written b e = braced s ∧
      ∀ k, Placeholder R (s ++ '\x7d' :: k) e k := by
  -- neither the brace nor the comma after a word goes on with it
  have hClose : ∀ t, Outside isWordChar ('\x7d' :: t) := outside_cons (by decide)
  have hComma : ∀ t, Outside isWordChar (',' :: t) := outside_cons (by decide)
  cases e with
  | text => exact absurd hText (by simp [Element.isText])
  | pound => exact absurd rfl hPound
  | simple id =>
    -- the name alone, which is followed by the closing brace
    refine ⟨_, rfl, fun k => ?_⟩
    exact .simple (blanks_written h (hClose k)) (word_written h (hClose k)) (mark_here k)
  | typed id type style =>
    obtain ⟨hId, hType, hPlain, hStyle⟩ := h
    cases style with
    | none =>
      -- the name and the type, with nothing after them
      refine ⟨_, rfl, fun k => ?_⟩
      rw [List.append_assoc]
      exact .typed (blanks_written hId (hComma _)) (word_written hId (hComma _))
        (blanks_self (outside_cons (by decide) _)) (blanks_written hType (hClose k))
        (word_written hType (hClose k)) (mark_here k) hPlain
    | some style =>
      -- a style, which is quoted as far as it has to be
      refine ⟨_, rfl, fun k => ?_⟩
      -- a style that is no empty text is written with at least one character
      have hNonempty : style.toList ≠ [] := by
        intro hNil
        exact hStyle (by rw [String.toList_eq_nil_iff.mp hNil])
      refine placeholder_of_argument hId hType (outside_isBlank_style hNonempty _) ?_
      have hArgument : Argument R id type _ (.typed id type _) k :=
        .styled hPlain (style_written hNonempty (mark_here k) (by simp [isBrace]))
          (mark_here k)
      rwa [String.ofList_toList] at hArgument
  | plural id kind offset cases =>
    obtain ⟨hId, hShort, hOther, hCases⟩ := h
    refine ⟨_, rfl, fun k => ?_⟩
    have hRead := cases_written hBody hCases.word hCases.inBraces k
    have hOffset := offset_written hShort
      (hRead.outside_isBlank (outside_cons (by decide) k))
    -- the clause comes first, so the cases are not taken for one
    refine placeholder_of_argument hId (by cases kind <;> decide) ?_ ?_
    all_goals rw [List.append_assoc]
    · exact outside_isBlank_offset _ _
    · have hArgument : Argument R id kind.name _ (.plural id kind offset (merged _)) k :=
        .plural kind rfl hOffset hRead (by rwa [List.map_map])
      rwa [merged_entries hCases.distinct] at hArgument
  | select id type cases =>
    -- the cases come right after the comma
    obtain ⟨hId, hType, hPlural, hNotSimple, hNonempty, hOther, hCases⟩ := h
    refine ⟨_, rfl, fun k => ?_⟩
    have hRead := cases_written hBody hCases.word hCases.inBraces k
    exact placeholder_of_argument hId hType
      (hRead.outside_isBlank (outside_cons (by decide) k))
      (argument_written hBody hPlural hNotSimple hNonempty hOther hCases k)

/-! ## Messages are read back -/

/-- A message is read back if the placeholders in it are, before what ends a text. -/
theorem elements_written {b : Bool} {m : Message} (h : m.WellFormedOver P b)
    {rest : List Char} (hRest : ∀ c ∈ rest.head?, isSpecial b c = true) :
    Elements R b (Message.written b m ++ rest) m rest := by
  -- by induction on the elements; each is read back before what is written for the others
  induction m with
  | nil => exact .nil
  | cons e m ih =>
    obtain ⟨hApart, hMoreApart⟩ := List.isChain_cons.mp h.apart
    obtain ⟨hHere, hOthers⟩ := List.forall_mem_cons.mp h.element
    have hMore := ih ⟨hOthers, hMoreApart⟩
    rw [Message.written, List.append_assoc]
    cases hText : e.isText with
    | true =>
      -- a text ends where the next element begins, since no two texts stand side by side
      obtain ⟨value, rfl⟩ := Element.isText_iff.mp hText
      have hNonempty : value.toList ≠ [] := fun hNil =>
        hHere (String.toList_eq_nil_iff.mp hNil)
      have hNext : ∀ next ∈ m.head?, next.isText = false := fun next hNext => by
        simpa [hText] using hApart next hNext
      -- what is written for a text stands for it, up to what ends a text
      have hRun : TextRun b _ value.toList _ :=
        passage_written (d := Dialect.text b) (special_quote b) (fun _ hStops => hStops)
          (special_written hOthers hNext hRest) value.toList
      have hElements : Elements R b _ (.text (String.ofList value.toList) :: m) rest :=
        .text hRun hNonempty hMore
      rwa [String.ofList_toList] at hElements
    | false =>
      by_cases hPound : e = .pound
      · subst hPound
        exact .pound hHere hMore
      · obtain ⟨s, hWritten, hRead⟩ := placeholder_written hBody hHere hText hPound
        rw [hWritten, braced_append]
        exact .placeholder (hRead _) hMore

end

/-- The text of a well-formed message stands for the message, up to any text at which a
message may end. -/
theorem messageAt_written {levels : Nat} {b : Bool} {m : Message}
    (h : m.WellFormed levels b) {rest : List Char}
    (hRest : ∀ c ∈ rest.head?, isSpecial b c = true) :
    MessageAt levels b (Message.written b m ++ rest) m rest := by
  -- by induction on the levels: a message in braces ends at the closing brace
  induction levels generalizing b m rest with
  | zero => exact elements_written (fun _ _ hNone => hNone.elim) h hRest
  | succ levels ih =>
    have hBody : ∀ b m, Message.WellFormed levels b m → ∀ k,
        MessageAt levels b (Message.written b m ++ '\x7d' :: k) m ('\x7d' :: k) := by
      intro b m hMessage k
      exact ih hMessage (by simp [isSpecial, isBrace])
    exact elements_written hBody h hRest

/-- The pattern of a well-formed message stands for it. -/
theorem derives_pattern {levels : Nat} {m : Message} (h : m.WellFormed levels false) :
    Derives levels m.pattern m := by
  have hMessage : MessageAt levels false (Message.written false m ++ []) m [] :=
    messageAt_written h (by simp)
  rwa [List.append_nil, ← String.toList_ofList (l := Message.written false m)] at hMessage

end Declared

namespace Parser

open Declared

/-- **Every well-formed tree is what its pattern parses to.** -/
theorem parse_pattern (p : Parser) (hLength : p.maxLength ≤ 0) (m : Message)
    (h : m.WellFormed p.maxNesting.toNat false) : p.parse (.text m.pattern) = .ok m := by
  have hShort : ¬(0 < p.maxLength ∧
      p.maxLength < (PatternValue.text m.pattern).toText.length) := by omega
  have hDerives : Derives p.maxNesting.toNat m.pattern m := by
    have hMessage : MessageAt p.maxNesting.toNat false (Message.written false m ++ [])
        m [] := messageAt_written h (by simp)
    rwa [List.append_nil, ← String.toList_ofList (l := Message.written false m)] at hMessage
  exact (parse_eq_ok_iff hShort).mpr ((p.reply_eq_ok_iff _ m).mpr hDerives)

/-- Apostrophes at both ends of a text before a brace, a style of a blank and a brace, and
a first selector that begins like an offset clause. -/
theorem parse_pattern_of_quoted :
    (Parser.mk 0 2).maxLength ≤ 0 ∧
      Message.WellFormed 2 false [.text "'\x7b'", .typed "a" "t" (some " '\x7d"),
        .plural "n" .ordinal 0 [⟨"offset:1", [.text "#", .pound]⟩,
          ⟨"other", [.select "g" "mine" [⟨"=1", [.text "#'"]⟩]]⟩]] ∧
      (Parser.mk 0 2).parse (.text <| Message.pattern
        [.text "'\x7b'", .typed "a" "t" (some " '\x7d"),
        .plural "n" .ordinal 0 [⟨"offset:1", [.text "#", .pound]⟩,
          ⟨"other", [.select "g" "mine" [⟨"=1", [.text "#'"]⟩]]⟩]]) =
        .ok [.text "'\x7b'", .typed "a" "t" (some " '\x7d"),
        .plural "n" .ordinal 0 [⟨"offset:1", [.text "#", .pound]⟩,
          ⟨"other", [.select "g" "mine" [⟨"=1", [.text "#'"]⟩]]⟩]] := by
  refine ⟨by decide, ?tree, parse_pattern ⟨0, 2⟩ (by decide) _ ?tree⟩
  decide +kernel

end Parser

end MessagePattern
