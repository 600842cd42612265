import MessagePattern.Proofs.Located

/-!
# What a report shows of the pattern

A report shows the line of the pattern that holds the error, and under it a caret. The line is
found by its number among the lines of the pattern, and the caret is placed by the column of the
error; the gutter in front of both is as wide as the number. So the caret stands under the
character at which the error is, or just past the line. A style that cuts long texts cuts the
line and leaves the caret where it is, which may be far to the right of what is left of the line.

* `ShowsExcerpt` — three lines of a report, the last of which ends with a caret;
* `Diagnostic.Style.showsExcerpt_render` — the excerpt in a report, for every style;
* `Parser.showsExcerpt_report` — the plain report of an error points at its character;
* `Parser.showsExcerpt_sanitized` — when the caret is within the line that is left of a cut.
-/

namespace MessagePattern

/-! ## Texts of several lines -/

/-- Texts one below the other have the lines of each of them. -/
theorem lines_intercalate {texts : List String} (hSome : texts ≠ []) :
    lines ("\n".intercalate texts).toList = texts.flatMap fun text => lines text.toList := by
  induction texts with
  | nil => exact absurd rfl hSome
  | cons text texts ih =>
    cases texts with
    | nil => simp
    | cons next texts =>
      -- the first text is followed by a line feed and the others
      have hText : ("\n".intercalate (text :: next :: texts)).toList =
          text.toList ++ '\n' :: ("\n".intercalate (next :: texts)).toList := by
        rw [String.intercalate_cons_cons]
        simp
      rw [hText, lines_append_newline, ih (List.cons_ne_nil _ _)]
      rfl

/-- A text grows by copies of one character at its end. -/
theorem toList_pushn (s : String) (c : Char) (n : Nat) :
    (s.pushn c n).toList = s.toList ++ List.replicate n c := by
  induction n with
  | zero => simp [String.pushn, Nat.repeat]
  | succ n ih =>
    show ((s.pushn c n).push c).toList = _
    rw [String.toList_push, ih, List.replicate_succ', List.append_assoc]

/-- A report with an excerpt: after some line come a second one and a third one, which ends with
a caret, the only one that it has. -/
def ShowsExcerpt (report second indent : List Char) : Prop :=
  '^' ∉ indent ∧ ∃ before first after,
    lines report = before ++ first :: second :: (indent ++ ['^']) :: after

/-! ## The excerpt of a report -/

namespace Diagnostic.Style

/-- A report has the lines of its rows. -/
theorem lines_render {style : Style} (hLayout : style.layout = .report) (d : Diagnostic)
    (source : Option String) : lines (style.render d source).toList =
      (style.reportLines d source).flatMap fun row => lines row.toList := by
  rw [render, hLayout]
  exact lines_intercalate (List.cons_ne_nil _ _)

/-- A report has the lines of its excerpt, one after another. -/
theorem exists_lines_render {style : Style} (hLayout : style.layout = .report) {d : Diagnostic}
    {span : Span} (hSpan : d.span = some span) (source : String) :
    ∃ before after, lines (style.render d (some source)).toList =
      before ++ ((style.excerpt source span).flatMap fun row => lines row.toList) ++ after := by
  -- the rows in front of the excerpt and those after it
  obtain ⟨head, place, help, note, hRows⟩ : ∃ head place help note,
      style.reportLines d (some source) =
        head :: (place :: style.excerpt source span ++ help ++ note) := by
    rw [reportLines, hSpan]
    exact ⟨_, _, _, _, rfl⟩
  refine ⟨lines head.toList ++ lines place.toList,
    (help ++ note).flatMap fun row => lines row.toList, ?_⟩
  rw [lines_render hLayout, hRows]
  simp only [List.flatMap_cons, List.flatMap_append, List.cons_append, List.append_assoc]

/-- The excerpt at a cursor shows the line that holds it, and a caret as far behind the gutter
as the cursor is in the line. -/
theorem excerpt_of_lineAt (style : Style) {c : Cursor} {above line below : List Char}
    (hLine : LineAt c.source.toList c.pos above line below) :
    style.excerpt c.source c.span =
      ["  " ++ "".pushn ' ' (toString c.line).length ++ " |",
        "  " ++ toString c.line ++ " | " ++ style.clip (String.ofList line),
        "  " ++ "".pushn ' ' (toString c.line).length ++ " | " ++
          "".pushn ' ' (c.pos - above.length) ++ "^"] := by
  -- the number of the line counts the line feeds above it, which finds the line again
  have hFound : (lines c.source.toList)[c.span.line - 1]? = some line := by
    show (lines c.source.toList)[c.line - 1]? = _
    rw [hLine.line_eq, Nat.add_sub_cancel, hLine.getElem?_lines]
  have hColumn : c.span.column - 1 = c.pos - above.length := by
    show c.column - 1 = _
    rw [hLine.column_eq, Nat.add_sub_cancel]
  rw [excerpt, hFound, hColumn]
  rfl

/-- A text that is cut gets no line feed. -/
theorem newline_not_mem_clip (style : Style) {text : List Char} (h : '\n' ∉ text) :
    '\n' ∉ (style.clip (String.ofList text)).toList := by
  rw [clip]
  split
  · rw [String.toList_append, String.toList_ofList, List.mem_append, not_or]
    exact ⟨fun hMem => h (List.mem_of_mem_take (by simpa [frontPart] using hMem)), by decide⟩
  · rwa [String.toList_ofList]

/-- The style of a sanitized report, which cuts texts at a length. -/
def sanitized (maxLength : Nat) (color : Bool) : Style :=
  { sanitize := true, color := color, maxLength := maxLength }

/-- What a sanitized report shows of a text. -/
theorem clip_sanitized (maxLength : Nat) (color : Bool) (text : List Char) :
    ((sanitized maxLength color).clip (String.ofList text)).toList =
      if maxLength < text.length then text.take maxLength ++ "...".toList else text := by
  by_cases hLong : maxLength < text.length
  · simp [clip, sanitized, hLong, frontPart]
  · simp [clip, sanitized, hLong]

/-- **The excerpt of a report.** In every style, the report of a violation shows the line that
holds the cursor, as the style cuts it, and a caret. Without the text in front of the line the
caret is where the cursor is in the line. -/
theorem showsExcerpt_render (style : Style) (hLayout : style.layout = .report)
    (cause : Violation) {c : Cursor} {above line below : List Char}
    (hLine : LineAt c.source.toList c.pos above line below) :
    ∃ front indent, indent.length = front.length + (c.pos - above.length) ∧
      ShowsExcerpt (style.render (cause.diagnostic c) (some c.source)).toList
        (front ++ (style.clip (String.ofList line)).toList) indent := by
  obtain ⟨before, after, hReport⟩ :=
    exists_lines_render hLayout (cause.span_diagnostic c) c.source
  have hNumber : '\n' ∉ (toString c.line).toList := (isOneLine_toString (Int.ofNat c.line)).1
  have hShown := newline_not_mem_clip style hLine.noBreak
  rw [excerpt_of_lineAt style hLine] at hReport
  -- the gutter is as wide as the number, whatever the number is
  generalize toString c.line = number at hReport hNumber
  refine ⟨"  ".toList ++ number.toList ++ " | ".toList,
    "  ".toList ++ List.replicate number.length ' ' ++ " | ".toList ++
      List.replicate (c.pos - above.length) ' ', ?width, ?noCaret, before,
    "  ".toList ++ List.replicate number.length ' ' ++ " |".toList, after, ?rows⟩
  case width => simp only [List.length_append, List.length_replicate, String.length_toList]
  case noCaret => simp
  case rows =>
    -- no row has a line feed in it, so each is one line of the report
    simp only [List.flatMap_cons, List.flatMap_nil, String.toList_append, toList_pushn] at hReport
    rw [hReport, lines_of_not_mem (by simp), lines_of_not_mem (by simp [hNumber, hShown]),
      lines_of_not_mem (by simp)]
    simp

end Diagnostic.Style

/-! ## Reports of rejected patterns -/

namespace Parser

/-- **The caret points at the offending character.** The report of the error of a rejected
pattern shows the line of the pattern that holds the offset of the error, unaltered at the end of
a line of its own. The caret in the next line stands under the character at the offset, or just
past the line, where the pattern ends or a line feed stands at the offset. -/
theorem showsExcerpt_report (p : Parser) (pattern : PatternValue) (e : SyntaxError)
    (h : p.parse pattern = .error (.rejected e)) :
    ∃ above line below front indent,
      LineAt pattern.toText.toList e.offset above line below ∧
      ShowsExcerpt e.report.toList (front ++ line) indent ∧
      indent.length = front.length + (e.offset - above.length) ∧
      (∀ c, pattern.toText.toList[e.offset]? = some c → c ≠ '\n' →
        (front ++ line)[indent.length]? = some c) ∧
      (e.offset = pattern.toText.length ∨ pattern.toText.toList[e.offset]? = some '\n' →
        indent.length = (front ++ line).length) := by
  -- the error stands at a cursor, and the cursor on a line
  obtain ⟨cause, c, hSource, hPos, -, rfl⟩ := exists_violation_of_parse h
  obtain ⟨above, line, below, hLine⟩ := exists_lineAt hPos
  obtain ⟨front, indent, hWidth, hShows⟩ :=
    Diagnostic.Style.showsExcerpt_render {} rfl cause hLine
  rw [← hSource, SyntaxError.offset_ofViolation]
  refine ⟨above, line, below, front, indent, hLine, ?_, hWidth, ?_, ?_⟩
  · -- the plain style leaves the line as it is
    have hWhole : (Diagnostic.Style.clip {} (String.ofList line)).toList = line := by
      simp [Diagnostic.Style.clip]
    rwa [hWhole] at hShows
  · -- the character stands in the line itself, so it is shown in front of the caret
    intro d hChar hOther
    rw [hWidth, List.getElem?_append_right (Nat.le_add_right _ _), Nat.add_sub_cancel_left]
    exact hLine.getElem?_line hChar hOther
  · intro hEnds
    rw [← String.length_toList] at hEnds
    have hOffset := hLine.offset_eq_of_ends hEnds
    rw [hWidth, List.length_append]
    omega

/-- A stray brace in the second line. -/
theorem showsExcerpt_report_of_second_line :
    Parser.parse {} (.text "a\nbc\x7d") =
        .error (.rejected (.ofViolation .unexpected ⟨"a\nbc\x7d", 4⟩)) ∧
      ∃ above line below front indent,
        LineAt "a\nbc\x7d".toList 4 above line below ∧
        ShowsExcerpt (SyntaxError.ofViolation .unexpected ⟨"a\nbc\x7d", 4⟩).report.toList
          (front ++ line) indent ∧
        indent.length = front.length + (4 - above.length) ∧
        (∀ c, "a\nbc\x7d".toList[4]? = some c → c ≠ '\n' →
          (front ++ line)[indent.length]? = some c) ∧
        (4 = "a\nbc\x7d".length ∨ "a\nbc\x7d".toList[4]? = some '\n' →
          indent.length = (front ++ line).length) :=
  ⟨parse_two_lines, showsExcerpt_report {} (.text "a\nbc\x7d") _ parse_two_lines⟩

/-! ### Lines that are cut -/

/-- **The caret under a line that is cut.** A sanitized report shows no more of the line that
holds the error than the length at which texts are cut, and three dots; but it places the caret
as under the whole line. So the caret is within what is shown, or just past it, exactly where the
line is not cut, or the error is not further in the line than the dots. -/
theorem showsExcerpt_sanitized (p : Parser) (pattern : PatternValue) (e : SyntaxError)
    (h : p.parse pattern = .error (.rejected e)) (maxLength : Nat) (color : Bool) :
    ∃ above line below front shown indent,
      LineAt pattern.toText.toList e.offset above line below ∧
      ShowsExcerpt ((Diagnostic.Style.sanitized maxLength color).render e.diagnostic
        (some pattern.toText)).toList (front ++ shown) indent ∧
      shown = (if maxLength < line.length then line.take maxLength ++ "...".toList else line) ∧
      shown.length ≤ maxLength + 3 ∧
      indent.length = front.length + (e.offset - above.length) ∧
      (indent.length ≤ (front ++ shown).length ↔
        line.length ≤ maxLength ∨ e.offset - above.length ≤ maxLength + 3) := by
  -- the error stands at a cursor, and the cursor on a line
  obtain ⟨cause, c, hSource, hPos, -, rfl⟩ := exists_violation_of_parse h
  obtain ⟨above, line, below, hLine⟩ := exists_lineAt hPos
  obtain ⟨front, indent, hWidth, hShows⟩ := Diagnostic.Style.showsExcerpt_render
    (Diagnostic.Style.sanitized maxLength color) rfl cause hLine
  rw [Diagnostic.Style.clip_sanitized] at hShows
  rw [← hSource, SyntaxError.offset_ofViolation]
  refine ⟨above, line, below, front, _, indent, hLine, hShows, rfl, ?bound, hWidth, ?caret⟩
  case bound =>
    split
    · simp
    · omega
  case caret =>
    -- the caret is under what is shown unless the line was cut before it
    have hInside := hLine.le_length
    rw [hWidth, List.length_append, Nat.add_le_add_iff_left]
    split
    · -- what is left of the line is the length of the cut and the dots
      simp only [List.length_append, List.length_take, String.length_toList]
      have hDots : "...".length = 3 := rfl
      omega
    · omega

/-- A stray brace at the end of a line. -/
theorem parse_greeting : Parser.parse {} (.text "Hello, dear world\x7d") =
    .error (.rejected (.ofViolation .unexpected ⟨"Hello, dear world\x7d", 17⟩)) := by
  decide +kernel

/-- The line is cut at five characters. -/
theorem showsExcerpt_sanitized_of_long_line :
    Parser.parse {} (.text "Hello, dear world\x7d") =
        .error (.rejected (.ofViolation .unexpected ⟨"Hello, dear world\x7d", 17⟩)) ∧
      ∃ above line below front shown indent,
        LineAt "Hello, dear world\x7d".toList 17 above line below ∧
        ShowsExcerpt ((Diagnostic.Style.sanitized 5 false).render
          (Violation.diagnostic ⟨"Hello, dear world\x7d", 17⟩ .unexpected)
          (some "Hello, dear world\x7d")).toList (front ++ shown) indent ∧
        shown = (if 5 < line.length then line.take 5 ++ "...".toList else line) ∧
        shown.length ≤ 5 + 3 ∧
        indent.length = front.length + (17 - above.length) ∧
        (indent.length ≤ (front ++ shown).length ↔
          line.length ≤ 5 ∨ 17 - above.length ≤ 5 + 3) :=
  ⟨parse_greeting,
    showsExcerpt_sanitized {} (.text "Hello, dear world\x7d") _ parse_greeting 5 false⟩

/-- There the caret stands past the end of what is shown of the line. -/
theorem length_shown_lt_length_indent :
    Parser.parse {} (.text "Hello, dear world\x7d") =
        .error (.rejected (.ofViolation .unexpected ⟨"Hello, dear world\x7d", 17⟩)) ∧
      ShowsExcerpt ((Diagnostic.Style.sanitized 5 false).render
        (Violation.diagnostic ⟨"Hello, dear world\x7d", 17⟩ .unexpected)
        (some "Hello, dear world\x7d")).toList "  1 | Hello...".toList
        "    |                  ".toList ∧
      "  1 | Hello...".length < "    |                  ".length := by
  refine ⟨parse_greeting, ⟨by decide, ?_⟩, by decide⟩
  refine ⟨["error[UNEXPECTED_TOKEN]: Unexp...".toList, "  --> line 1, column 18".toList],
    "    |".toList,
    ["  = help: Remov...".toList, "  = note: see ".toList ++ Diagnostic.docsBase.toList ++ ['/']],
    ?_⟩
  -- the rows of the report are evaluated one by one
  rw [Diagnostic.Style.lines_render rfl]
  decide +kernel

end Parser

end MessagePattern
