import MessagePattern.Proofs.Written

/-!
# Anything can be quoted

Whatever a text is, it can be written so that it is read back as it is, and so can a style.
The spelling is told here in terms of the text alone: a front part whose apostrophes are
doubled, and the rest in one quoted run, where apostrophes are doubled as well.

* In message text the front part goes up to the first special character.
* In a style every character can be quoted, and an apostrophe that is not one of a pair
  quotes; so the front part has the leading apostrophes only.

Definitions and results:

* `quotedText`, `quotedStyle` — text and styles with their quoting;
* `Dialect.written_eq` — they are the text that is written for a message;
* `Reader.runAt_text_quoted` — any text is read back, and nothing beyond it;
* `Parser.parse_quotedStyle` — any style is read back, with any blanks around it.
-/

namespace MessagePattern

open Declared

/-! ## Spelling -/

/-- Text as one quoted run. There is no run where there is no text. -/
def enclosed : List Char → List Char
  | [] => []
  | c :: t => '\'' :: (Dialect.doubled (c :: t) ++ ['\''])

/-- Message text with its quoting: apostrophes are doubled, and the text is in a quoted run
from the first special character on. -/
def quotedText (poundIsNumber : Bool) (t : String) : String :=
  String.ofList
    (Dialect.doubled (t.toList.takeWhile fun c => !isSpecial poundIsNumber c) ++
      enclosed (t.toList.dropWhile fun c => !isSpecial poundIsNumber c))

/-- A style with its quoting: leading apostrophes are doubled, and the rest is in a quoted
run, where apostrophes are doubled too. -/
def quotedStyle (w : String) : String :=
  String.ofList
    (List.replicate (2 * (w.toList.takeWhile (· == '\'')).length) '\'' ++
      enclosed (w.toList.dropWhile (· == '\'')))

/-- Whether a character may stand in front of the quoted run: an apostrophe, or a character
that no apostrophe quotes. -/
def Dialect.isFront (d : Dialect) (c : Char) : Bool := c == '\'' || !d.opens c

/-- What the dialect writes is the front part of the text, and a quoted run. -/
theorem Dialect.written_eq (d : Dialect) (v : List Char) :
    d.written v = doubled (v.takeWhile d.isFront) ++ enclosed (v.dropWhile d.isFront) := by
  induction v with
  | nil => rfl
  | cons c v ih =>
    unfold Dialect.written
    -- the front part goes on as long as no character that opens a quotation has come
    by_cases hPair : c = '\''
    · have hFront : d.isFront c = true := by simp [isFront, hPair]
      rw [if_pos hPair, ih, List.takeWhile_cons_of_pos hFront,
        List.dropWhile_cons_of_pos hFront, doubled, if_pos hPair]
      rfl
    · rw [if_neg hPair]
      cases hOpens : d.opens c with
      | true =>
        -- the front part ends at a character that opens a quotation
        have hStop : ¬d.isFront c = true := by simp [isFront, hPair, hOpens]
        rw [if_pos rfl, List.takeWhile_cons_of_neg hStop, List.dropWhile_cons_of_neg hStop]
        rfl
      | false =>
        have hFront : d.isFront c = true := by simp [isFront, hOpens]
        rw [if_neg (by decide), ih, List.takeWhile_cons_of_pos hFront,
          List.dropWhile_cons_of_pos hFront, doubled, if_neg hPair]
        rfl

/-- The written text is that of the dialect of texts. -/
theorem toList_quotedText (b : Bool) (t : String) :
    (quotedText b t).toList = (Dialect.text b).written t.toList := by
  -- an apostrophe is not special, so it does not end the front part
  have hFront : (Dialect.text b).isFront = fun c => !isSpecial b c := by
    funext c
    unfold Dialect.isFront
    by_cases hQuote : c = '\''
    · subst hQuote
      cases b <;> decide
    · rw [beq_false_of_ne hQuote, Bool.false_or]
      rfl
  rw [Dialect.written_eq, hFront, quotedText, String.toList_ofList]

/-- Apostrophes alone are doubled one by one. -/
theorem doubled_of_quotes {v : List Char} (hQuotes : ∀ c ∈ v, (c == '\'') = true) :
    Dialect.doubled v = List.replicate (2 * v.length) '\'' := by
  induction v with
  | nil => rfl
  | cons c v ih =>
    obtain ⟨hHere, hMore⟩ := List.forall_mem_cons.mp hQuotes
    obtain rfl : c = '\'' := eq_of_beq hHere
    rw [Dialect.doubled, if_pos rfl, ih hMore, List.length_cons, Nat.mul_succ,
      List.replicate_succ, List.replicate_succ]

/-- The written style is that of the dialect of styles. -/
theorem toList_quotedStyle (w : String) :
    (quotedStyle w).toList = Dialect.style.written w.toList := by
  have hFront : Dialect.style.isFront = (· == '\'') := funext fun c => Bool.or_false _
  have hQuotes : ∀ c ∈ w.toList.takeWhile (· == '\''), (c == '\'') = true :=
    fun c hc => List.mem_takeWhile_imp (p := (· == '\'')) hc
  rw [Dialect.written_eq, hFront, doubled_of_quotes hQuotes, quotedStyle,
    String.toList_ofList]

/-! ## Message text -/

/-- A reader that takes the text after the cursor, up to what follows, moves the cursor over
it. -/
theorem Reader.runAt_of_taken {α : Type} {p : Reader α} {a : α} {log : List Token}
    {front taken after : String}
    (hRun : p.run (taken.toList ++ after.toList) = ⟨.ok a, log, after.toList⟩) :
    p.runAt ⟨front ++ taken ++ after, front.length⟩ =
      ⟨.ok a, log, ⟨front ++ taken ++ after, front.length + taken.length⟩⟩ := by
  -- the text from the place on, and what is left of it after what is taken
  have hRest : Cursor.rest ⟨front ++ taken ++ after, front.length⟩ =
      taken.toList ++ after.toList := by
    unfold Cursor.rest
    rw [String.append_assoc, String.toList_append, String.toList_append]
    exact List.drop_left' (String.length_toList ..)
  have hDrop : (taken.toList ++ after.toList).drop taken.length = after.toList :=
    List.drop_left' (String.length_toList ..)
  refine Reader.runAt_of_run ?_ ?_
  · rw [hRest, hDrop, hRun]
  · rw [hRest, List.length_append, String.length_toList]
    omega

/-- **Any text can be quoted.** From the front of quoted text, before any text that is empty
or begins with a special character, the reader of message text gives the text itself, stops
where the quoted text ends, and logs the quoted text as one token. -/
theorem Reader.runAt_text_quoted (b : Bool) (t front after : String) (hText : t ≠ "")
    (hAfter : ∀ c ∈ after.toList.head?, isSpecial b c = true) :
    (Reader.text b).runAt ⟨front ++ quotedText b t ++ after, front.length⟩ =
      ⟨.ok t, [⟨.text, quotedText b t⟩],
        ⟨front ++ quotedText b t ++ after, front.length + (quotedText b t).length⟩⟩ := by
  refine Reader.runAt_of_taken ?_
  -- the scan of what is written stands for the text and stops after it
  have hPassage : Passage (Dialect.text b).stops (Dialect.text b).opens
      ((quotedText b t).toList ++ after.toList) t.toList after.toList := by
    rw [toList_quotedText]
    exact passage_written (special_quote b) (fun _ hStops => hStops) hAfter t.toList
  obtain ⟨hValue, hRest⟩ := (passage_iff (special_quote b)).mp hPassage
  -- the scan covers all that is written
  have hSource : Glyph.sourceOf ((Dialect.text b).scan false
      ((quotedText b t).toList ++ after.toList)).glyphs = (quotedText b t).toList := by
    have hSplit := Stretch.source_append_rest (Dialect.text b) false
      ((quotedText b t).toList ++ after.toList)
    rw [hRest] at hSplit
    exact List.append_cancel_right hSplit
  have hNonempty : (quotedText b t).isEmpty = false := by
    -- nothing would stand for nothing
    cases hEmpty : (quotedText b t).isEmpty with
    | false => rfl
    | true =>
      have hNil : (quotedText b t).toList = [] := by simpa using hEmpty
      rw [hNil, List.nil_append, (Dialect.text b).scan_stop (special_quote b) hAfter] at hValue
      exact absurd (String.toList_eq_nil_iff.mp hValue.symm) hText
  rw [Reader.run_text rfl, hValue, hSource, hRest, String.ofList_toList,
    String.ofList_toList, hNonempty]
  rfl

/-- Apostrophes before a brace, at both ends of the quoted run and within it. -/
theorem Reader.runAt_text_quoted_of_apostrophes :
    "'a''\x7b'#'" ≠ "" ∧ (∀ c ∈ "\x7dx".toList.head?, isSpecial true c = true) ∧
      (Reader.text true).runAt ⟨"\x7b" ++ quotedText true "'a''\x7b'#'" ++ "\x7dx", 1⟩ =
        ⟨.ok "'a''\x7b'#'", [⟨.text, quotedText true "'a''\x7b'#'"⟩],
          ⟨"\x7b" ++ quotedText true "'a''\x7b'#'" ++ "\x7dx",
            1 + (quotedText true "'a''\x7b'#'").length⟩⟩ ∧
      quotedText true "'a''\x7b'#'" = "''a'''''\x7b''#'''" := by
  have hAfter : ∀ c ∈ "\x7dx".toList.head?, isSpecial true c = true := by
    intro c hHead
    obtain rfl : '\x7d' = c := Option.some.inj hHead
    decide
  exact ⟨by decide, hAfter,
    Reader.runAt_text_quoted true "'a''\x7b'#'" "\x7b" "\x7dx" (by decide) hAfter,
    by decide +kernel⟩

/-! ## Styles -/

/-- A placeholder with a name, a type and a third part. -/
def placeholderWith (id type third : String) : String :=
  "\x7b" ++ id ++ "," ++ type ++ "," ++ third ++ "\x7d"

/-- A placeholder is its opening brace, its three parts and its closing brace. -/
theorem toList_placeholderWith (id type third : String) :
    (placeholderWith id type third).toList =
      '\x7b' :: threeParts id type (third.toList ++ ['\x7d']) := by
  unfold placeholderWith threeParts
  simp

/-- A placeholder with a quoted style, and blanks around it, stands for its parts. -/
theorem Declared.derives_quotedStyle (levels : Nat) {id type before after w : String}
    (hId : IsWord id) (hType : IsWord type) (hPlain : type ∉ casedTypes)
    (hBefore : ∀ c ∈ before.toList, isBlank c = true)
    (hAfter : ∀ c ∈ after.toList, isBlank c = true) (hStyle : w ≠ "") :
    Derives levels (placeholderWith id type (before ++ quotedStyle w ++ after))
      [.typed id type (some w)] := by
  have hNonempty : w.toList ≠ [] := fun hNil => hStyle (String.toList_eq_nil_iff.mp hNil)
  have hClose : Mark '\x7d' (after.toList ++ ['\x7d']) [] :=
    ⟨after.toList, rfl, hAfter, outside_cons (by decide) []⟩
  obtain ⟨third, hThird⟩ :
      ∃ third, (quotedStyle w).toList ++ (after.toList ++ ['\x7d']) = third := ⟨_, rfl⟩
  -- the blanks before the style are skipped, since the style does not begin with one
  have hFront : Blanks (before.toList ++ third) third := by
    refine ⟨before.toList, rfl, hBefore, ?_⟩
    rw [← hThird, toList_quotedStyle]
    exact outside_isBlank_style hNonempty _
  -- the style is read back, up to the blanks before the brace
  have hRead : Style third w.toList (after.toList ++ ['\x7d']) := by
    rw [← hThird, toList_quotedStyle]
    exact style_written hNonempty hClose (by simp [isBrace])
  have hArgument : Argument (InBraces levels) id type third
      (.typed id type (some (String.ofList w.toList))) [] := .styled hPlain hRead hClose
  rw [String.ofList_toList] at hArgument
  unfold Derives
  rw [messageAt_eq, toList_placeholderWith, String.toList_append, String.toList_append,
    List.append_assoc, List.append_assoc, hThird]
  exact .placeholder (.full (header_written hId hType hFront) hArgument) .nil

namespace Parser

/-- **Any style can be quoted.** A placeholder with a name, a type that does not always take
cases, and a quoted style, with any blanks in front of the style and after it, parses to
the formatted argument with that style; unless the pattern is longer than the parser's limit,
in which case it is not read. -/
theorem parse_quotedStyle (p : Parser) (id type before after w : String) (hId : IsWord id)
    (hType : IsWord type) (hPlain : type ∉ casedTypes)
    (hBefore : ∀ c ∈ before.toList, isBlank c = true)
    (hAfter : ∀ c ∈ after.toList, isBlank c = true) (hStyle : w ≠ "") :
    p.parse (.text (placeholderWith id type (before ++ quotedStyle w ++ after))) =
      if 0 < p.maxLength ∧ p.maxLength <
          (placeholderWith id type (before ++ quotedStyle w ++ after)).length then
        .error (.tooLong (placeholderWith id type (before ++ quotedStyle w ++ after)).length
          p.maxLength.toNat)
      else .ok [.typed id type (some w)] := by
  -- the pattern derives the placeholder, so it is what the parser reads
  have hDerives := derives_quotedStyle p.maxNesting.toNat hId hType hPlain hBefore hAfter hStyle
  generalize placeholderWith id type (before ++ quotedStyle w ++ after) = pattern at hDerives ⊢
  split
  · next hTooLong =>
    have hLong : 0 < p.maxLength ∧
        p.maxLength < (PatternValue.text pattern).toText.length := hTooLong
    rw [parse, parseInto_of_long hLong]
    rfl
  · next hFits =>
    have hShort : ¬(0 < p.maxLength ∧
        p.maxLength < (PatternValue.text pattern).toText.length) := hFits
    exact (parse_eq_ok_iff hShort).mpr ((p.reply_eq_ok_iff _ _).mpr hDerives)

/-- A style of apostrophes, braces, commas and blanks at both ends, among other blanks. -/
theorem parse_quotedStyle_of_blanks :
    (IsWord "d" ∧ IsWord "mine" ∧ "mine" ∉ casedTypes ∧
      (∀ c ∈ "\t ".toList, isBlank c = true) ∧ (∀ c ∈ "\n".toList, isBlank c = true) ∧
      "'' \x7d#,'\x7b " ≠ "") ∧
    (Parser.mk 40 0).parse (.text (placeholderWith "d" "mine"
        ("\t " ++ quotedStyle "'' \x7d#,'\x7b " ++ "\n"))) =
      .ok [.typed "d" "mine" (some "'' \x7d#,'\x7b ")] ∧
    placeholderWith "d" "mine" ("\t " ++ quotedStyle "'' \x7d#,'\x7b " ++ "\n") =
      "\x7bd,mine,\t ''''' \x7d#,''\x7b '\n\x7d" := by
  have hBefore : ∀ c ∈ "\t ".toList, isBlank c = true := List.all_eq_true.mp (by decide)
  have hAfter : ∀ c ∈ "\n".toList, isBlank c = true := List.all_eq_true.mp (by decide)
  refine ⟨⟨by decide, by decide, by decide, hBefore, hAfter, by decide⟩, ?_,
    by decide +kernel⟩
  exact (parse_quotedStyle ⟨40, 0⟩ "d" "mine" "\t " "\n" "'' \x7d#,'\x7b " (by decide)
    (by decide) (by decide) hBefore hAfter (by decide)).trans (if_neg (by decide +kernel))

/-- Within the usual limits, with as many blanks in front of a style as a pattern may have
characters, the pattern is too long. -/
theorem parse_not_quotedStyle :
    (IsWord "d" ∧ IsWord "date" ∧ "date" ∉ casedTypes ∧
      (∀ c ∈ (String.ofList (List.replicate 10485760 ' ')).toList, isBlank c = true) ∧
      (∀ c ∈ "".toList, isBlank c = true) ∧ "x" ≠ "") ∧
    ({} : Parser).parse (.text (placeholderWith "d" "date"
        (String.ofList (List.replicate 10485760 ' ') ++ quotedStyle "x" ++ ""))) =
      .error (.tooLong 10485772 10485760) := by
  -- with that many blanks the pattern is as many characters longer than the rest of it
  have hLength : ∀ n, (PatternValue.text (placeholderWith "d" "date"
      (String.ofList (List.replicate n ' ') ++ quotedStyle "x" ++ ""))).toText.length =
      n + 12 := by
    intro n
    have hQuoted : quotedStyle "x" = "'x'" := by decide +kernel
    show (placeholderWith _ _ _).length = _
    unfold placeholderWith
    rw [hQuoted]
    simp only [String.length_append, String.length_ofList, List.length_replicate]
    show 1 + 1 + 1 + 4 + 1 + (n + 3 + 0) + 1 = n + 12
    omega
  refine ⟨⟨by decide, by decide, by decide, ?_, List.all_eq_true.mp (by decide), by decide⟩,
    ?_⟩
  · intro c hc
    rw [String.toList_ofList] at hc
    rw [List.eq_of_mem_replicate hc]
    decide
  · rw [parse, parseInto_of_long (by rw [hLength]; decide), hLength]
    rfl

end Parser

end MessagePattern
