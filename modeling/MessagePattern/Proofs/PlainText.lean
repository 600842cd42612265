import MessagePattern.Proofs.Concatenation

/-!
# Text without braces

At the top level only braces are special, so in a text without braces no apostrophe quotes anything: it
is one of a pair, which stands for one apostrophe, or it stands for itself. Such a text is never
rejected. It is one element, and one token.

* `pairsCollapsed` — a text with its pairs of apostrophes collapsed;
* `Declared.textRun_of_plain` — what a text without braces stands for;
* `Parser.parseInto_of_plain` — the message and the log of a text without braces.
-/

namespace MessagePattern

/-- A text with every pair of apostrophes collapsed to one, from left to right. An apostrophe that is
left without a partner stays. -/
def pairsCollapsed : List Char → List Char
  | '\'' :: '\'' :: t => '\'' :: pairsCollapsed t
  | c :: t => c :: pairsCollapsed t
  | [] => []

/-- At the top level, a text without braces is a run of text up to its end. -/
theorem Declared.textRun_of_plain {s : List Char} (h : ∀ c ∈ s, isBrace c = false) :
    TextRun false s (pairsCollapsed s) [] := by
  have hSpecial : ∀ c ∈ s, isSpecial false c = false := fun c hMem => by
    rw [isSpecial, h c hMem]
    rfl
  clear h
  -- by induction on the text, as its pairs are collapsed
  induction s using pairsCollapsed.induct with
  | case1 t ih =>
    rw [pairsCollapsed]
    exact .more rfl .pair (ih fun c hMem =>
      hSpecial c (List.mem_cons_of_mem _ (List.mem_cons_of_mem _ hMem)))
  | case2 c t hNoPair ih =>
    have hMore := ih fun c hMem => hSpecial c (List.mem_cons_of_mem _ hMem)
    rw [pairsCollapsed.eq_2 c t hNoPair]
    -- an apostrophe that is alone stays, since the next character is neither one nor a brace
    by_cases hQuote : c = '\''
    · subst hQuote
      refine .more rfl (.lone fun d hNext => ⟨?_, ?_⟩) hMore
      · rintro rfl
        obtain ⟨u, rfl⟩ := List.head?_eq_some_iff.mp hNext
        exact hNoPair u rfl rfl
      · exact hSpecial d (List.mem_cons_of_mem _ (List.mem_of_mem_head? hNext))
    · exact .more (hSpecial c (List.mem_cons_self ..)) (.plain hQuote) hMore
  | case3 => exact .stop (by simp)

namespace Grammar

open Reader Declared

/-- A text without braces is read as one element, and logged as one token. -/
theorem run_elements_of_plain (body : Body) {c : Char} {s : List Char}
    (h : ∀ d ∈ c :: s, isBrace d = false) :
    (topElements body).run (c :: s) =
      ⟨.ok [.text (String.ofList (pairsCollapsed (c :: s)))],
        [⟨.text, String.ofList (c :: s)⟩], []⟩ := by
  have hHere : isSpecial false c = false := by
    rw [isSpecial, h c (List.mem_cons_self ..)]
    rfl
  obtain ⟨stretch, hScan⟩ : ∃ stretch, (Dialect.text false).scan false (c :: s) = stretch :=
    ⟨_, rfl⟩
  obtain ⟨hValue, hRest⟩ := passage_scan (d := .text false) rfl (textRun_of_plain h)
  have hSource := Stretch.source_append_rest (Dialect.text false) false (c :: s)
  rw [hRest, List.append_nil] at hSource
  rw [hScan] at hValue hRest hSource
  have hItem := run_item_of_text body hHere hScan
  rw [hValue, hSource, hRest] at hItem
  rw [untilClose_run_of_ok (closesHere_of_plain hHere s) hItem, untilClose_run_of_close rfl]
  rfl

end Grammar

namespace Parser

/-- **Text without braces never fails.** Whatever the nesting limit, a text without braces that is not
limited in length is parsed. The empty text gives the empty message and no token. Any other gives one
text, in which every pair of apostrophes is collapsed, from left to right, and every apostrophe without
a partner is kept, and one token with the text as it stands. -/
theorem parseInto_of_plain (p : Parser) (hLength : p.maxLength ≤ 0) (s : String)
    (hPlain : ∀ c ∈ s.toList, c ≠ '\x7b' ∧ c ≠ '\x7d') (log : List Token) :
    p.parseInto (.text s) log =
      if s = "" then (.ok [], log)
      else (.ok [.text (String.ofList (pairsCollapsed s.toList))], log ++ [⟨.text, s⟩]) := by
  -- a parser with no limit on lengths reads every text
  have hShort : ¬(0 < p.maxLength ∧ p.maxLength < (PatternValue.text s).toText.length) := by
    rintro ⟨hLimited, -⟩
    omega
  have hTop : p.rootContext.isTopLevel = true := rfl
  rw [parseInto_of_short hShort]
  show ((p.reply s).result.mapError _, log ++ (p.reply s).tokens) = _
  rw [reply, Grammar.run_message hTop rfl]
  by_cases hEmpty : s = ""
  · subst hEmpty
    rw [if_pos rfl, String.toList_empty, Reader.untilClose_run_of_close rfl]
    simp [Reply.atTop, Except.mapError, Except.bind]
  · rw [if_neg hEmpty]
    obtain ⟨c, t, hCons⟩ := List.exists_cons_of_ne_nil (fun h => hEmpty (String.toList_eq_nil_iff.mp h))
    have hBraces : ∀ d ∈ c :: t, isBrace d = false := by
      rw [← hCons]
      intro d hMem
      simpa [isBrace] using hPlain d hMem
    rw [hCons, Grammar.run_elements_of_plain _ hBraces, ← hCons, String.ofList_toList]
    rfl

/-- Pairs, runs of three and lone apostrophes, next to a pound sign and at both ends. No sub-message
could stand here. -/
theorem parseInto_of_plain_of_apostrophes :
    (∀ c ∈ "'#' it''s 5 o'clock'''".toList, c ≠ '\x7b' ∧ c ≠ '\x7d') ∧
      (Parser.mk 0 (-1)).parseInto (.text "'#' it''s 5 o'clock'''") [] =
        (.ok [.text "'#' it's 5 o'clock''"], [⟨.text, "'#' it''s 5 o'clock'''"⟩]) := by
  have hPlain : ∀ c ∈ "'#' it''s 5 o'clock'''".toList, c ≠ '\x7b' ∧ c ≠ '\x7d' := by
    simp
  refine ⟨hPlain, (parseInto_of_plain ⟨0, -1⟩ (by decide) _ hPlain []).trans ?_⟩
  rw [if_neg (by decide)]
  rfl

end Parser

end MessagePattern
