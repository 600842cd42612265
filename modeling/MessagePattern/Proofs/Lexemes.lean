import Mathlib.Data.List.Induction
import MessagePattern.Proofs.Apostrophes
import MessagePattern.Proofs.Runs

/-!
# What the lexeme readers accept

Each reader that takes text is matched with the production it reads: a run of
blanks, a word, message text, an offset clause. The productions say how far a lexeme
goes, and so does the reader, so there is one rest for each text.

* `Declared.run_iff` — a run is what `takeWhile` and `dropWhile` cut off;
* `Reader.accepts_space`, `Reader.accepts_name`, `Reader.accepts_text` — the lexemes;
* `Grammar.accepts_offset` — the offset clause of a plural placeholder.
-/

namespace MessagePattern

namespace Declared

/-! ## Runs -/

/-- The longest front part of a text that passes a test is a run, and the only one. -/
theorem run_takeWhile (test : Char → Bool) (s : List Char) :
    Run test s (s.takeWhile test) (s.dropWhile test) := by
  refine ⟨List.takeWhile_append_dropWhile.symm, fun c hc => List.mem_takeWhile_imp hc, ?_⟩
  intro c hc
  cases hDrop : s.dropWhile test with
  | nil => simp [hDrop] at hc
  | cons d t =>
    have hHead := List.head_dropWhile_not test (l := s) (by simp [hDrop])
    simp only [hDrop, List.head_cons] at hHead
    simp only [hDrop, List.head?_cons, Option.mem_some_iff] at hc
    rw [← hc, hHead]

/-- A run at the front of a text is unique. -/
theorem run_iff {test : Char → Bool} {s run rest : List Char} :
    Run test s run rest ↔ run = s.takeWhile test ∧ rest = s.dropWhile test := by
  refine ⟨?_, ?_⟩
  · -- what is left does not pass the test, so the longest run is this one
    rintro ⟨rfl, hInside, hOutside⟩
    have hRest : rest.takeWhile test = [] ∧ rest.dropWhile test = rest := by
      cases rest with
      | nil => exact ⟨rfl, rfl⟩
      | cons c t =>
        have hStop : ¬test c = true := by simp [hOutside c rfl]
        exact ⟨List.takeWhile_cons_of_neg hStop, List.dropWhile_cons_of_neg hStop⟩
    rw [List.takeWhile_append_of_pos hInside, List.dropWhile_append_of_pos hInside,
      hRest.1, hRest.2, List.append_nil]
    exact ⟨rfl, rfl⟩
  · rintro ⟨rfl, rfl⟩
    exact run_takeWhile test s

theorem blanks_iff {s rest : List Char} : Blanks s rest ↔ rest = s.dropWhile isBlank := by
  simp [Blanks, run_iff]

/-- The characters of words are those at which the reader of words does not break off. -/
theorem isWordChar_eq (c : Char) : isWordChar c = !isWordBreak c := by
  rw [isWordChar, isWordBreak, Bool.eq_iff_iff]
  simp only [Bool.and_eq_true, Bool.not_eq_true', Bool.or_eq_false_iff,
    List.contains_eq_mem, List.mem_cons, List.not_mem_nil, or_false,
    decide_eq_false_iff_not, not_or, beq_eq_false_iff_ne]
  tauto

/-- A word is as long as its characters go, and it is not empty. -/
theorem word_iff {s rest : List Char} {word : String} :
    Word s word rest ↔ word = String.ofList (s.takeWhile isWordChar) ∧
      rest = s.dropWhile isWordChar ∧ word ≠ "" := by
  rw [Word, run_iff, ← String.toList_inj, String.toList_ofList, and_assoc]

end Declared

namespace Reader

open Declared

variable {α : Type}

/-! ## Lexemes -/

/-- A lexeme takes as much as its width says, even nothing. -/
@[simp] theorem accepts_lexeme {kind : Token.Kind} {width : List Char → Nat}
    {s rest : List Char} {w : String} :
    (lexeme kind width).Accepts s w rest ↔
      w = String.ofList (s.take (width s)) ∧ rest = s.drop (width s) := by
  simp only [Accepts, lexeme, Except.ok.injEq]
  exact and_congr eq_comm eq_comm

@[simp] theorem not_stops_lexeme {kind : Token.Kind} {width : List Char → Nat}
    {s rest : List Char} {fault : Fault} : ¬(lexeme kind width).Stops s fault rest := by
  simp [Stops, lexeme]

/-- The width of a run cuts the text where the run ends. -/
theorem take_widthWhile (test : Char → Bool) (s : List Char) :
    s.take (widthWhile test s) = s.takeWhile test ∧
      s.drop (widthWhile test s) = s.dropWhile test := by
  have hSplit : s.takeWhile test ++ s.dropWhile test = s :=
    List.takeWhile_append_dropWhile
  refine ⟨?_, ?_⟩
  · calc s.take (widthWhile test s)
        = (s.takeWhile test ++ s.dropWhile test).take (s.takeWhile test).length := by
          rw [hSplit, widthWhile]
      _ = s.takeWhile test := List.take_left
  · calc s.drop (widthWhile test s)
        = (s.takeWhile test ++ s.dropWhile test).drop (s.takeWhile test).length := by
          rw [hSplit, widthWhile]
      _ = s.dropWhile test := List.drop_left

/-- Blanks are skipped as far as they go. -/
@[simp] theorem accepts_space {s rest : List Char} {u : Unit} :
    space.Accepts s u rest ↔ Blanks s rest := by
  rw [space, accepts_bind, blanks_iff]
  simp [(take_widthWhile isBlank s).2, eq_comm]

/-- It is no fault if there are no blanks to skip. -/
@[simp] theorem not_stops_space {s rest : List Char} {fault : Fault} :
    ¬space.Stops s fault rest := by
  simp [space, stops_bind]

/-- The reader of words takes what it finds, which may be nothing. -/
theorem accepts_word {kind : Token.Kind} {s rest : List Char} {w : String} :
    (word kind).Accepts s w rest ↔
      w = String.ofList (s.takeWhile isWordChar) ∧ rest = s.dropWhile isWordChar := by
  have hTest : (fun c => !isWordBreak c) = isWordChar :=
    funext fun c => (isWordChar_eq c).symm
  rw [word, accepts_lexeme, hTest, (take_widthWhile isWordChar s).1,
    (take_widthWhile isWordChar s).2]

/-- A name is a word, so the reader of names takes what the reader of words does, if that is not
empty. -/
@[simp] theorem accepts_name {kind : Token.Kind} {what : Expectation} {s rest : List Char}
    {w : String} : (name kind what).Accepts s w rest ↔ Word s w rest := by
  rw [name, accepts_bind, word_iff]
  simp only [accepts_word, accepts_require_bind, accepts_pure]
  refine ⟨?_, ?_⟩
  · rintro ⟨w', t, ⟨rfl, rfl⟩, hNonempty, rfl, rfl⟩
    exact ⟨rfl, rfl, by simpa using hNonempty⟩
  · rintro ⟨rfl, rfl, hNonempty⟩
    exact ⟨_, _, ⟨rfl, rfl⟩, by simpa using hNonempty, rfl, rfl⟩

/-- A word is missing where a character stands that no word can begin with. -/
@[simp] theorem stops_name {kind : Token.Kind} {what : Expectation}
    {s rest : List Char} {fault : Fault} :
    (name kind what).Stops s fault rest ↔
      (∀ c ∈ s.head?, isWordChar c = false) ∧ .violation (.expected what) = fault ∧
      s = rest := by
  have hEmpty : s.takeWhile isWordChar = [] ↔ ∀ c ∈ s.head?, isWordChar c = false := by
    cases s with
    | nil => simp
    | cons c t => cases hc : isWordChar c <;> simp [hc]
  rw [name, stops_bind]
  simp only [accepts_word, stops_require_bind, not_stops_pure, and_false, or_false]
  rw [← hEmpty]
  -- an empty word takes nothing, so the text is left as it is
  refine ⟨?_, ?_⟩
  · rintro (hStops | ⟨w, t, ⟨rfl, rfl⟩, hNone, hFault, hRest⟩)
    · exact absurd hStops (by simp [word])
    · have hNil : s.takeWhile isWordChar = [] := by simpa using hNone
      have hDrop : s.dropWhile isWordChar = s := by
        have hSplit := List.takeWhile_append_dropWhile (p := isWordChar) (l := s)
        rwa [hNil, List.nil_append] at hSplit
      exact ⟨hNil, hFault, hDrop ▸ hRest⟩
  · rintro ⟨hNil, hFault, rfl⟩
    have hDrop : s.dropWhile isWordChar = s := by
      have hSplit := List.takeWhile_append_dropWhile (p := isWordChar) (l := s)
      rwa [hNil, List.nil_append] at hSplit
    exact .inr ⟨_, _, ⟨rfl, rfl⟩, by simp [hNil], hFault, hDrop⟩

/-! ## Text -/

/-- Text is read as far as no special character stops it. -/
@[simp] theorem accepts_text {poundIsNumber : Bool} {s rest : List Char}
    {value : String} :
    (text poundIsNumber).Accepts s value rest ↔
      ∃ v, TextRun poundIsNumber s v rest ∧ value = String.ofList v := by
  have hQuote : (Dialect.text poundIsNumber).stops '\'' = false := by
    cases poundIsNumber <;> rfl
  have hScan : ∀ v, TextRun poundIsNumber s v rest ↔ _ := fun v => passage_iff hQuote
  -- what is left after the text is what the scan has left
  have hRest : s.drop (Glyph.sourceOf
      ((Dialect.text poundIsNumber).scan false s).glyphs).length =
        ((Dialect.text poundIsNumber).scan false s).rest := by
    have hSource := Stretch.source_append_rest (Dialect.text poundIsNumber) false s
    calc s.drop (Glyph.sourceOf ((Dialect.text poundIsNumber).scan false s).glyphs).length
        = (Glyph.sourceOf ((Dialect.text poundIsNumber).scan false s).glyphs ++
            ((Dialect.text poundIsNumber).scan false s).rest).drop
              (Glyph.sourceOf ((Dialect.text poundIsNumber).scan false
              s).glyphs).length := by
          rw [hSource]
      _ = _ := List.drop_left
  rw [text, accepts_lookAhead_bind, accepts_bind]
  simp only [accepts_lexeme, accepts_pure, hRest]
  refine ⟨?_, ?_⟩
  · rintro ⟨w, t, ⟨rfl, rfl⟩, rfl, rfl⟩
    exact ⟨_, (hScan _).mpr ⟨rfl, rfl⟩, rfl⟩
  · rintro ⟨v, hText, rfl⟩
    obtain ⟨rfl, rfl⟩ := (hScan v).mp hText
    exact ⟨_, _, ⟨rfl, rfl⟩, rfl, rfl⟩

@[simp] theorem not_stops_text {poundIsNumber : Bool} {s rest : List Char}
    {fault : Fault} : ¬(text poundIsNumber).Stops s fault rest := by
  rw [text, stops_lookAhead_bind]
  simp [stops_bind]

/-! ## Styles -/

/-- A style that was found in a text is read from it by its length. -/
@[simp] theorem accepts_commitStyle {scan : StyleScan} {s rest : List Char}
    {style : String} :
    (commitStyle scan).Accepts s style rest ↔
      style = scan.value ∧ rest = s.drop scan.source.length := by
  simp only [Accepts, commitStyle, Except.ok.injEq]
  exact and_congr eq_comm eq_comm

@[simp] theorem not_stops_commitStyle {scan : StyleScan} {s rest : List Char}
    {fault : Fault} : ¬(commitStyle scan).Stops s fault rest := by
  simp [Stops, commitStyle]

/-! ## Offset clauses -/

theorem offset_keyword_colon : offsetKeyword ++ [':'] = "offset:".toList := by decide

/-- The keyword and colon of an offset clause are part of one word. -/
theorem isWordChar_of_mem_keyword : ∀ c ∈ "offset:".toList, isWordChar c = true :=
  List.all_eq_true.mp (by decide)

/-- A decimal numeral denotes the number with these digits, the last one for the
units. -/
theorem value_eq_ofDigits (digits : List Char) :
    Numeral.value digits =
      Nat.ofDigits 10 (digits.reverse.map fun c => c.toNat - '0'.toNat) := by
  induction digits using List.reverseRecOn with
  | nil => rfl
  | append_singleton digits c ih =>
    -- the last digit is worth its value, and the others ten times as much as without it
    have hStep : Numeral.value (digits ++ [c]) =
        10 * Numeral.value digits + (c.toNat - '0'.toNat) := by
      rw [Numeral.value, List.foldl_append]
      rfl
    rw [hStep, ih, List.reverse_append, List.reverse_singleton, List.singleton_append,
      List.map_cons, Nat.ofDigits_cons]
    omega

/-- A numeral of at most 4300 digits has its value. -/
theorem read?_eq_some_iff {digits : List Char} {n : Nat} :
    Numeral.read? digits = some n ↔ digits.length ≤ 4300 ∧ Numeral.value digits = n := by
  rw [Numeral.read?, Option.ite_none_right_eq_some, Numeral.maxDigits, Option.some.injEq]

/-- A numeral of more than 4300 digits is refused. -/
theorem read?_eq_none_iff {digits : List Char} :
    Numeral.read? digits = none ↔ 4300 < digits.length := by
  rw [Option.eq_none_iff_forall_ne_some]
  simp [read?_eq_some_iff]

/-- The digits of an offset clause. -/
def offsetDigits : Reader (Option Nat) := do
  let digits := (← lookAhead).takeWhile Char.isDigit
  require (!digits.isEmpty) (.expected .offsetNumber)
  match Numeral.read? digits with
  | none => reject (.offsetOutOfRange Numeral.maxDigits)
  | some n =>
    let _ ← lexeme .number fun _ => digits.length
    return some n

/-- What follows the keyword and colon of an offset clause. -/
def offsetNumber : Reader (Option Nat) := do
  space
  offsetDigits

/-- Without digits the number of an offset is missing. -/
theorem run_offsetDigits_of_none {s : List Char} (hNone : s.takeWhile Char.isDigit = []) :
    offsetDigits.run s = ⟨.error (.violation (.expected .offsetNumber)), [], s⟩ := by
  rw [offsetDigits, run_bind, run_lookAhead]
  simp only [Reply.andThen, hNone]
  rfl

/-- Digits that are too many are refused in front of the first of them. -/
theorem run_offsetDigits_of_long {s : List Char}
    (hLong : Numeral.read? (s.takeWhile Char.isDigit) = none) :
    offsetDigits.run s = ⟨.error (.violation (.offsetOutOfRange 4300)), [], s⟩ := by
  have hSome : (!(s.takeWhile Char.isDigit).isEmpty) = true := by
    cases hDigits : s.takeWhile Char.isDigit with
    | nil => simp [hDigits, Numeral.read?] at hLong
    | cons c t => rfl
  rw [offsetDigits, run_bind, run_lookAhead]
  simp only [Reply.andThen, hSome, hLong]
  rfl

/-- Digits that are not too many are one token. -/
theorem run_offsetDigits_of_short {s : List Char} {n : Nat}
    (hSome : s.takeWhile Char.isDigit ≠ [])
    (hShort : Numeral.read? (s.takeWhile Char.isDigit) = some n) :
    offsetDigits.run s =
      ⟨.ok (some n), [⟨.number, String.ofList (s.takeWhile Char.isDigit)⟩],
        s.dropWhile Char.isDigit⟩ := by
  have hSome' : (!(s.takeWhile Char.isDigit).isEmpty) = true := by simpa using hSome
  obtain ⟨hTake, hDrop⟩ := take_widthWhile Char.isDigit s
  rw [widthWhile] at hTake hDrop
  have hText : (String.ofList (s.takeWhile Char.isDigit)).isEmpty = false := by
    simpa using hSome
  rw [offsetDigits, run_bind, run_lookAhead]
  simp only [Reply.andThen, hSome', hShort, require, if_true, run_bind, run_pure, lexeme,
    hTake, hDrop, hText, List.nil_append, List.append_nil, Bool.false_eq_true, if_false]

/-- Where the keyword and colon stand, they are taken, and the number has to follow. -/
theorem run_offsetClause?_of_keyword (t : List Char) :
    offsetClause?.run ("offset:".toList ++ t) =
      ⟨(offsetNumber.run t).result,
        ⟨.offset, "offset"⟩ :: ⟨.colon, ":"⟩ :: (offsetNumber.run t).tokens,
        (offsetNumber.run t).rest⟩ := by
  -- the keyword and the colon are there, so they are looked for with success
  have hPrefix : (offsetKeyword ++ [':']).isPrefixOf ("offset:".toList ++ t) = true := by
    rw [offset_keyword_colon, List.isPrefixOf_iff_prefix]
    exact List.prefix_append ..
  have hKeyword : (lexeme .offset fun _ => offsetKeyword.length).run
      ("offset:".toList ++ t) =
        ⟨.ok "offset", [⟨.offset, "offset"⟩], ':' :: t⟩ := rfl
  have hColon : (lexeme .colon fun _ => 1).run (':' :: t) =
      ⟨.ok ":", [⟨.colon, ":"⟩], t⟩ := rfl
  rw [offsetClause?, run_bind, run_lookAhead]
  simp only [Reply.andThen, if_pos hPrefix]
  rw [run_bind, hKeyword]
  simp only [Reply.andThen]
  rw [run_bind, hColon]
  rfl

/-- Elsewhere there is no clause, and nothing is taken. -/
theorem run_offsetClause?_of_not_keyword {s : List Char} (h : ¬"offset:".toList <+: s) :
    offsetClause?.run s = ⟨.ok none, [], s⟩ := by
  have hPrefix : ¬(offsetKeyword ++ [':']).isPrefixOf s = true := by
    rwa [offset_keyword_colon, List.isPrefixOf_iff_prefix]
  simp only [offsetClause?, run_bind, run_lookAhead, Reply.andThen, if_neg hPrefix,
    run_pure, List.nil_append]

/-- The number of an offset is made of digits, one at least and 4300 at most, after blanks that may be
missing. -/
theorem accepts_offsetNumber {s rest : List Char} {o : Option Nat} :
    offsetNumber.Accepts s o rest ↔
      ∃ t digits, Blanks s t ∧ Run Char.isDigit t digits rest ∧ 1 ≤ digits.length ∧
        digits.length ≤ 4300 ∧ o = some (Numeral.value digits) := by
  rw [offsetNumber, accepts_bind]
  simp only [accepts_space, run_iff]
  refine ⟨?_, ?_⟩
  · rintro ⟨-, t, hBlanks, hDigits⟩
    -- no digits, too many, or a number
    rw [Accepts] at hDigits
    by_cases hNone : t.takeWhile Char.isDigit = []
    · simp [run_offsetDigits_of_none hNone] at hDigits
    · cases hRead : Numeral.read? (t.takeWhile Char.isDigit) with
      | none => simp [run_offsetDigits_of_long hRead] at hDigits
      | some n =>
        rw [run_offsetDigits_of_short hNone hRead] at hDigits
        obtain ⟨hValue, hRest⟩ := hDigits
        obtain ⟨hShort, rfl⟩ := read?_eq_some_iff.mp hRead
        exact ⟨t, _, hBlanks, ⟨rfl, hRest.symm⟩, List.length_pos_iff.mpr hNone, hShort,
          (Except.ok.inj hValue).symm⟩
  · rintro ⟨t, digits, hBlanks, ⟨rfl, rfl⟩, hSome, hShort, rfl⟩
    refine ⟨(), t, hBlanks, ?_⟩
    rw [Accepts, run_offsetDigits_of_short (List.length_pos_iff.mp hSome)
      (read?_eq_some_iff.mpr ⟨hShort, rfl⟩)]
    exact ⟨rfl, rfl⟩

/-- The number of a clause is missing, or it has too many digits. -/
theorem stops_offsetNumber {s rest : List Char} {fault : Fault} :
    offsetNumber.Stops s fault rest ↔
      Blanks s rest ∧
        ((rest.takeWhile Char.isDigit = [] ∧
            fault = .violation (.expected .offsetNumber)) ∨
          4300 < (rest.takeWhile Char.isDigit).length ∧
            fault = .violation (.offsetOutOfRange 4300)) := by
  rw [offsetNumber, stops_bind]
  simp only [not_stops_space, false_or, accepts_space]
  refine ⟨?_, ?_⟩
  · rintro ⟨-, t, hBlanks, hDigits⟩
    rw [Stops] at hDigits
    -- no digits, or too many; a number does not stop
    by_cases hNone : t.takeWhile Char.isDigit = []
    · rw [run_offsetDigits_of_none hNone] at hDigits
      obtain ⟨hFault, rfl⟩ := hDigits
      exact ⟨hBlanks, .inl ⟨hNone, (Except.error.inj hFault).symm⟩⟩
    · cases hRead : Numeral.read? (t.takeWhile Char.isDigit) with
      | none =>
        rw [run_offsetDigits_of_long hRead] at hDigits
        obtain ⟨hFault, rfl⟩ := hDigits
        exact ⟨hBlanks, .inr ⟨read?_eq_none_iff.mp hRead, (Except.error.inj hFault).symm⟩⟩
      | some n => simp [run_offsetDigits_of_short hNone hRead] at hDigits
  · rintro ⟨hBlanks, ⟨hNone, rfl⟩ | ⟨hLong, rfl⟩⟩
    · -- the same faults, the other way round
      refine ⟨(), rest, hBlanks, ?_⟩
      rw [Stops, run_offsetDigits_of_none hNone]
      exact ⟨rfl, rfl⟩
    · refine ⟨(), rest, hBlanks, ?_⟩
      rw [Stops, run_offsetDigits_of_long (read?_eq_none_iff.mpr hLong)]
      exact ⟨rfl, rfl⟩

end Reader

namespace Grammar

open Reader Declared

/-- Where the keyword and colon stand, the offset is read from what follows them. -/
theorem accepts_offset_of_keyword {t rest : List Char} {n : Nat} :
    offset.Accepts ("offset:".toList ++ t) n rest ↔
      ∃ t', offsetNumber.Accepts t (some n) t' ∧ Blanks t' rest := by
  have hClause : ∀ o t', offsetClause?.Accepts ("offset:".toList ++ t) o t' ↔
      offsetNumber.Accepts t o t' := fun o t' => by
    rw [Accepts, run_offsetClause?_of_keyword, Accepts]
  rw [offset, accepts_bind]
  refine ⟨?_, ?_⟩
  · rintro ⟨o, t', hNumber, hSpace⟩
    -- a number was read, so it is that one
    obtain ⟨t₁, digits, -, -, -, -, rfl⟩ :=
      accepts_offsetNumber.mp ((hClause o t').mp hNumber)
    obtain ⟨u, t₂, hBlanks, hPure⟩ := accepts_bind.mp hSpace
    obtain ⟨rfl, rfl⟩ := accepts_pure.mp hPure
    exact ⟨t', (hClause _ t').mp hNumber, accepts_space.mp hBlanks⟩
  · rintro ⟨t', hNumber, hBlanks⟩
    exact ⟨some n, t', (hClause _ t').mpr hNumber,
      accepts_bind.mpr ⟨(), rest, accepts_space.mpr hBlanks, accepts_pure.mpr ⟨rfl, rfl⟩⟩⟩

/-- Where the keyword does not stand there is no offset, and nothing is read. -/
theorem run_offset_of_not_keyword {s : List Char} (h : ¬"offset:".toList <+: s) :
    offset.run s = ⟨.ok 0, [], s⟩ := by
  have hClause := run_offsetClause?_of_not_keyword h
  rw [offset, run_bind_of_ok (a := none) (by rw [hClause]), hClause]
  rfl

/-- The offset is that of the clause at the front of the text, and zero where none
stands. -/
theorem accepts_offset {s rest : List Char} {n : Nat} :
    offset.Accepts s n rest ↔ Offset s n rest := by
  by_cases hKeyword : "offset:".toList <+: s
  · obtain ⟨t, rfl⟩ := hKeyword
    rw [accepts_offset_of_keyword]
    refine ⟨?_, ?_⟩
    · rintro ⟨t', hNumber, hAfter⟩
      obtain ⟨t₁, digits, hBefore, hRun, hNonempty, hShort, hValue⟩ :=
        accepts_offsetNumber.mp hNumber
      obtain rfl : n = Numeral.value digits := by simpa using hValue
      rw [value_eq_ofDigits]
      exact .clause hBefore hRun hNonempty hShort hAfter
    · intro hOffset
      -- a text with the keyword has an offset only by its clause
      generalize hs : "offset:".toList ++ t = s at hOffset
      cases hOffset with
      | @clause u t₁ digits t₂ rest hBefore hRun hNonempty hShort hAfter =>
        obtain rfl : t = u := List.append_cancel_left hs
        refine ⟨t₂, accepts_offsetNumber.mpr
          ⟨t₁, digits, hBefore, hRun, hNonempty, hShort, ?_⟩, hAfter⟩
        rw [value_eq_ofDigits]
      | none hNone => exact absurd (List.prefix_append ..) (hs ▸ hNone)
  · rw [Accepts, run_offset_of_not_keyword hKeyword]
    refine ⟨?_, ?_⟩
    · -- without the keyword the offset is nought
      rintro ⟨hZero, hRest⟩
      obtain rfl : 0 = n := by simpa using hZero
      obtain rfl : s = rest := hRest
      exact .none hKeyword
    · intro hOffset
      cases hOffset with
      | clause => exact absurd (List.prefix_append ..) hKeyword
      | none => exact ⟨rfl, rfl⟩

/-- Only a clause whose keyword stands there can go wrong, and then before its
number. -/
theorem exists_keyword_of_stops_offset {s rest : List Char} {fault : Fault}
    (h : offset.Stops s fault rest) : ∃ t, s = "offset:".toList ++ t ∧ Blanks t rest := by
  by_cases hKeyword : "offset:".toList <+: s
  · obtain ⟨t, rfl⟩ := hKeyword
    refine ⟨t, rfl, ?_⟩
    rw [offset, stops_bind] at h
    rcases h with hClause | ⟨clause, t', -, hNext⟩
    · rw [Stops, run_offsetClause?_of_keyword] at hClause
      exact (stops_offsetNumber.mp hClause).1
    · cases clause <;> simp [stops_bind] at hNext
  · simp [Stops, run_offset_of_not_keyword hKeyword] at h

end Grammar

end MessagePattern
