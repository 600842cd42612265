import MessagePattern.Proofs.Continuation
import MessagePattern.Proofs.Recognition
import MessagePattern.Proofs.Sealed

/-!
# Placeholders that stop can be completed

A reader stops at the first character with which the text can go on no more, and
what it has read until then can go on. What is missing is put in by hand: a name, a
brace, a number, a case for `other`. Readers are given for the messages in braces,
and others that complete what the first ones have read.

* `Completes` — readers of messages in braces, and readers that complete what the
  first ones have read;
* `CasesGoOn`, `Selects`, `selects_of_stops` — lists of cases, which may still owe
  the case for `other`;
* `Completed`, `completed_argument`, `completed_placeholder` — the parts of a
  placeholder, up to its closing brace.
-/

namespace MessagePattern

namespace Grammar

open Reader Declared

/-- Two families of readers for messages in braces. The second ones read what the
first ones read, and complete what the first ones have read when they stop. -/
structure Completes (body body' : Body) (R R' : Bool → Production Message) : Prop where
  reads : Bracketed body R
  reads' : Bracketed body' R'
  more : ∀ b s m rest, R b s m rest → R' b s m rest
  isDecided : ∀ b, (body b).Decided Exempt
  isSealed : ∀ b, (body b).Sealed
  empty : ∀ b k, R' b ('\x7d' :: k) [] ('\x7d' :: k)
  stopped : ∀ b s cause x t, (body b).Stops s (.violation cause) t → x ++ t = s →
    ∃ u, ∀ k, ∃ m, R' b (x ++ (u ++ k)) m ('\x7d' :: k)

/-! ## Words and blanks -/

/-- A word does not begin with a blank. -/
theorem outside_isBlank_of_word {s t : List Char} {w : String} (h : Word s w t) :
    Outside isBlank s := by
  obtain ⟨c, v, hText⟩ := List.exists_cons_of_ne_nil
    (fun hNil => h.2 (String.toList_eq_nil_iff.mp hNil) : w.toList ≠ [])
  rw [h.1.split, hText]
  refine outside_cons ?_ _
  have hWord : isWordChar c = true := h.1.inside c (by simp [hText])
  simp only [isWordChar, Bool.and_eq_true, Bool.not_eq_true'] at hWord
  exact hWord.1

/-- Blanks in front of what is no word character are no word character either. -/
theorem outside_isWordChar_of_blanks {blanks z : List Char}
    (hBlanks : ∀ c ∈ blanks, isBlank c = true) (hOutside : Outside isWordChar z) :
    Outside isWordChar (blanks ++ z) := by
  cases blanks with
  | nil => exact hOutside
  | cons c blanks =>
    have hBlank : isBlank c = true := hBlanks c (List.mem_cons_self ..)
    exact outside_cons (by simp [isWordChar, hBlank]) _

/-- A mark, with the blanks before it, does not go on with a word. -/
theorem outside_isWordChar_of_mark {c : Char} {s t : List Char}
    (hChar : isWordChar c = false) (h : Mark c s t) : Outside isWordChar s := by
  obtain ⟨blanks, rfl, hInside, -⟩ := h
  exact outside_isWordChar_of_blanks hInside (outside_cons hChar t)

/-- A text that goes on with a word begins as that word does. -/
theorem head?_eq_of_word {s s' t t' : List Char} {w : String} (hWord : Word s w t)
    (hWord' : Word s' w t') : s'.head? = s.head? := by
  rw [hWord.1.split, hWord'.1.split, List.head?_append_of_ne_nil,
    List.head?_append_of_ne_nil]
  all_goals exact fun hNil => hWord.2 (String.toList_eq_nil_iff.mp hNil)

/-- The keyword of an offset clause stands in front only where it begins the first
word. -/
theorem keyword_of_word {s s' t t' : List Char} {w : String} (hWord : Word s w t)
    (hWord' : Word s' w t') (hKeyword : "offset:".toList <+: s') :
    "offset:".toList <+: s := by
  obtain ⟨r, rfl⟩ := hKeyword
  have hLetters : w.toList = "offset:".toList ++ r.takeWhile isWordChar := by
    rw [(word_iff.mp hWord').1, String.toList_ofList,
      List.takeWhile_append_of_pos isWordChar_of_mem_keyword]
  rw [hWord.1.split, hLetters, List.append_assoc]
  exact List.prefix_append ..

/-- Cases begin with the selector of the first one. -/
theorem exists_word_of_cases {body : Production Message} {s rest : List Char}
    {entry : String × Message} {entries : List (String × Message)}
    (h : Cases body s (entry :: entries) rest) : ∃ t, Word s entry.1 t := by
  cases h with
  | cons hWord => exact ⟨_, hWord⟩

/-- A list of cases comes to its first unquoted brace in its first case. -/
theorem firstBrace_of_cases {body : Production Message} {s rest : List Char}
    {entry : String × Message} {entries : List (String × Message)}
    (h : Cases body s (entry :: entries) rest) : ∃ t, FirstBrace s ('\x7b' :: t) := by
  cases h with
  | @cons _ selector t₁ t₂ m t₃ t₄ _ _ hWord hOpen =>
    obtain ⟨lead, rfl, hLead, -⟩ := hOpen
    -- word characters and blanks stand in front of the first brace
    have hText : s = (selector.toList ++ lead) ++ '\x7b' :: t₂ := by
      rw [hWord.1.split, List.append_assoc]
    refine ⟨t₂, ?_⟩
    rw [hText]
    refine firstBrace_of_lead fun c hc => ?_
    -- a character in front is one of the selector or a blank after it
    rcases List.mem_append.mp hc with hLeft | hRight
    · exact .inl (hWord.1.inside c hLeft)
    · exact .inr (hLead c hRight)

/-! ## Cases -/

/-- The case that completes a list of cases, and the closing brace of its
placeholder. -/
def otherAndClose : List Char := "other\x7b\x7d\x7d".toList

/-- The completion of a case list begins with its selector `other`. -/
theorem word_otherAndClose (k : List Char) :
    Word (otherAndClose ++ k) "other" ("\x7b\x7d\x7d".toList ++ k) :=
  ⟨⟨rfl, List.all_eq_true.mp (by decide), outside_cons (by decide) _⟩, by decide⟩

/-- The name that is put in where one is missing. -/
theorem word_x (k : List Char) : Word ('x' :: '\x7d' :: k) "x" ('\x7d' :: k) :=
  ⟨⟨rfl, List.all_eq_true.mp (by decide), outside_cons (by decide) k⟩, by decide⟩

/-- Cases that were read in part go on. Unless nothing was read, they begin with the
word with which they began, and end before anything but a blank. -/
def CasesGoOn (body : Production Message) (s x u : List Char) : Prop :=
  x = [] ∧ u = [] ∨ ∃ w t, Word s w t ∧ ∀ k, Outside isBlank k →
    ∃ entries t', Cases body (x ++ (u ++ k)) entries k ∧ Word (x ++ (u ++ k)) w t'

/-- Text that is completed to cases, one of them for `other`, and the closing brace
after them. They begin with the word with which the text began, or are begun anew. -/
structure Selects (body : Production Message) (s x u : List Char) : Prop where
  derives : ∀ k, ∃ entries, Cases body (x ++ (u ++ k)) entries ('\x7d' :: k) ∧
    "other" ∈ entries.map (·.1)
  word : ∀ k, ∃ w t, Word (x ++ (u ++ k)) w t ∧ (w = "other" ∨ ∃ t', Word s w t')

/-- Cases that are completed have no offset clause in front unless one stood there. -/
theorem Selects.not_keyword {body : Production Message} {s x u : List Char}
    (hSelects : Selects body s x u) (hNot : ¬"offset:".toList <+: s) (k : List Char) :
    ¬"offset:".toList <+: x ++ (u ++ k) := by
  intro hKeyword
  obtain ⟨w, t, hWord, rfl | ⟨t', hOld⟩⟩ := hSelects.word k
  · have hOther := keyword_of_word (word_otherAndClose []) hWord hKeyword
    exact absurd hOther (by decide)
  · exact hNot (keyword_of_word hOld hWord hKeyword)

/-- A completed list of cases does not begin with a blank. -/
theorem Selects.outside {body : Production Message} {s x u : List Char}
    (hSelects : Selects body s x u) (k : List Char) :
    Outside isBlank (x ++ (u ++ k)) := by
  obtain ⟨w, t, hWord, -⟩ := hSelects.word k
  exact outside_isBlank_of_word hWord

/-- Cases that are completed may stand after an offset clause. -/
theorem Selects.begins {body : Production Message} {s x u : List Char}
    (hSelects : Selects body s x u) (k : List Char) :
    (x ++ (u ++ k)).head? = s.head? ∨ Outside isBlank (x ++ (u ++ k)) ∧
      Outside Char.isDigit (x ++ (u ++ k)) := by
  obtain ⟨w, t, hWord, rfl | ⟨t', hOld⟩⟩ := hSelects.word k
  · refine .inr ⟨outside_isBlank_of_word hWord, ?_⟩
    rw [Outside, head?_eq_of_word (word_otherAndClose []) hWord]
    exact outside_cons (by decide) _
  · exact .inl (head?_eq_of_word hOld hWord)

/-- Looking for a closing brace stops where, after the blanks, there is none. -/
theorem stops_close {s t : List Char} {fault : Fault} :
    close.Stops s fault t ↔
      Blanks s t ∧ t.head? ≠ some '\x7d' ∧ .violation (.expected .close) = fault := by
  simp only [close, stops_bind, not_stops_space, false_or, accepts_space, stops_demand]
  refine ⟨?_, ?_⟩
  · rintro ⟨-, t, hBlanks, hHead, hFault, rfl⟩
    exact ⟨hBlanks, hHead, hFault⟩
  · rintro ⟨hBlanks, hHead, hFault⟩
    exact ⟨(), t, hBlanks, hHead, hFault, rfl⟩

section
variable {body body' : Body} {R R' : Bool → Production Message}
  (h : Completes body body' R R')
include h

/-- The body of a case ends in front of its closing brace. -/
theorem closed_body (b : Bool) : Closed fun s m t => R b s m ('\x7d' :: t) := by
  intro s m t hMessage
  obtain ⟨x, hText, hAny⟩ :=
    exists_append_of_accepts (h.isDecided b s) (h.isSealed b s)
      ((h.reads b s m t).mpr hMessage)
  exact ⟨x, hText, fun t' => (h.reads b _ m t').mp (hAny t')⟩

/-- A case that was read in part goes on: its brace is opened, its message is
completed, or both. -/
theorem casesGoOn_of_stops_caseEntry {b : Bool} {s x t : List Char} {cause : Violation}
    (hStops : (caseEntry (body b)).Stops s (.violation cause) t) (hSplit : x ++ t = s) :
    ∃ u, CasesGoOn (R' b) s x u := by
  simp only [caseEntry, stops_bind, stops_name, accepts_name, not_stops_space,
    accepts_space, stops_demand, accepts_demand, false_or, not_stops_pure, or_false,
    and_false, exists_false] at hStops
  rcases hStops with ⟨-, -, rfl⟩ | ⟨w, t₁, hWord, -, t₂, hBlanks, hStops⟩
  · -- no selector: nothing was read
    obtain rfl : x = [] := by simpa using hSplit
    exact ⟨[], .inl ⟨rfl, rfl⟩⟩
  · obtain ⟨blanks, rfl, hInside, hOutside⟩ := hBlanks
    have hText := hWord.1.split
    -- the word and the blanks after it are kept, and a brace follows them
    have hWord' : ∀ k, Word (w.toList ++ (blanks ++ '\x7b' :: k)) w
        (blanks ++ '\x7b' :: k) := by
      intro k
      refine ⟨⟨rfl, hWord.1.inside, ?_⟩, hWord.2⟩
      exact Outside.append hWord.1.outside fun _ => outside_cons (by decide) _
    have hOpen : ∀ k, Mark '\x7b' (blanks ++ '\x7b' :: k) k := fun k =>
      ⟨blanks, rfl, hInside, outside_cons (by decide) _⟩
    rcases hStops with ⟨-, -, rfl⟩ | ⟨-, t₃, rfl, hStops⟩
    · -- no brace: an empty message is put in
      obtain rfl : x = w.toList ++ blanks :=
        List.append_cancel_right (hSplit.trans (hText.trans (List.append_assoc ..).symm))
      refine ⟨['\x7b', '\x7d'], .inr ⟨w, _, hWord, fun k hk => ?_⟩⟩
      have hNew : w.toList ++ blanks ++ (['\x7b', '\x7d'] ++ k) =
          w.toList ++ (blanks ++ '\x7b' :: '\x7d' :: k) := by simp
      rw [hNew]
      exact ⟨[(w, [])], _, .cons (hWord' _) (hOpen _) (h.empty b k) (blanks_self hk) .nil,
        hWord' _⟩
    · -- the message stops, and is completed with its brace
      have hTiles := (h.isDecided b t₃).tiles.joined_append_rest
      rw [hStops.2] at hTiles
      obtain ⟨u, hMessage⟩ := h.stopped b t₃ cause _ t hStops hTiles
      generalize Token.joined ((body b).run t₃).tokens = y at hTiles hMessage
      obtain rfl : x = w.toList ++ (blanks ++ '\x7b' :: y) := by
        refine List.append_cancel_right (hSplit.trans (hText.trans ?_))
        rw [← hTiles]
        simp
      refine ⟨u, .inr ⟨w, _, hWord, fun k hk => ?_⟩⟩
      obtain ⟨m, hm⟩ := hMessage k
      have hNew : w.toList ++ (blanks ++ '\x7b' :: y) ++ (u ++ k) =
          w.toList ++ (blanks ++ '\x7b' :: (y ++ (u ++ k))) := by simp
      rw [hNew]
      exact ⟨[(w, m)], _, .cons (hWord' _) (hOpen _) hm (blanks_self hk) .nil, hWord' _⟩

/-- A list of cases that stops does so in some case. -/
theorem exists_cases_of_stops {b : Bool} {s t : List Char} {fault : Fault}
    (hStops : (untilClose (caseItem (body b))).Stops s fault t) :
    ∃ entries t₁, Cases (R b) s entries t₁ ∧ (caseEntry (body b)).Stops t₁ fault t := by
  induction s using untilClose_induction (caseItem (body b)) with
  | step s ih =>
    rcases stops_untilClose.mp hStops with ⟨hGoesOn, hHere | ⟨e, t₁, hEntry, hMore⟩⟩
    · exact ⟨[], s, .nil, hHere⟩
    · obtain ⟨u₁, u₂, u₃, hWord, hOpen, hMessage, hBlanks⟩ :=
        (accepts_caseEntry h.reads).mp hEntry
      obtain rfl := hEntry.2
      obtain ⟨entries, t₂, hCases, hStop⟩ := ih e hGoesOn hEntry.1 hMore
      exact ⟨e :: entries, t₂, .cons hWord hOpen hMessage hBlanks hCases, hStop⟩

/-- Cases in front of cases that go on go on with them. -/
theorem CasesGoOn.after {b : Bool} {s x t t₁ u : List Char}
    {entries : List (String × Message)} (hGoOn : CasesGoOn (R' b) t₁ x u)
    (hCases : Cases (R b) s entries t₁) (hSplit : x ++ t = t₁) :
    ∃ y, y ++ t = s ∧ CasesGoOn (R' b) s y u := by
  cases entries with
  | nil =>
    -- no case was read before
    cases hCases
    exact ⟨x, hSplit, hGoOn⟩
  | cons entry entries =>
    obtain ⟨t₂, hWord⟩ := exists_word_of_cases hCases
    -- the cases that were read are kept whatever comes after them
    obtain ⟨y, rfl, hAny⟩ := hCases.exists_append (closed_body h b)
    refine ⟨y ++ x, by rw [List.append_assoc, hSplit], .inr ⟨_, _, hWord, fun k hk => ?_⟩⟩
    -- the cases that go on are none, or they begin with a word
    obtain ⟨more, hOutside, hMore⟩ : ∃ more, Outside isBlank (x ++ (u ++ k)) ∧
        Cases (R' b) (x ++ (u ++ k)) more k := by
      rcases hGoOn with ⟨rfl, rfl⟩ | ⟨w, t', -, hAgain⟩
      · exact ⟨[], hk, .nil⟩
      · obtain ⟨more, t₃, hMore, hWord'⟩ := hAgain k hk
        exact ⟨more, outside_isBlank_of_word hWord', hMore⟩
    -- the cases that were read, and after them the ones that go on
    have hAll := ((hAny hOutside).mono h.more).append hMore
    -- the text begins with the selector of the first of them
    rw [List.append_assoc]
    obtain ⟨t₃, hWord'⟩ := exists_word_of_cases hAll
    exact ⟨_, t₃, hAll, hWord'⟩

/-- A list of cases that was read in part or as a whole goes on. -/
theorem casesGoOn_of_read {b : Bool} {s x t : List Char}
    (hRead : (∃ cause, (untilClose (caseItem (body b))).Stops s (.violation cause) t) ∨
      ∃ entries, (untilClose (caseItem (body b))).Accepts s entries t)
    (hSplit : x ++ t = s) : ∃ u, CasesGoOn (R' b) s x u := by
  -- what holds after the cases that were read holds of the whole list
  have hRest : ∀ {t₁ y}, y ++ t = t₁ → ∀ {u entries}, CasesGoOn (R' b) t₁ y u →
      Cases (R b) s entries t₁ → ∃ u, CasesGoOn (R' b) s x u := by
    intro t₁ y hSplit₁ u entries hGoOn hCases
    obtain ⟨z, hSplit₂, hAll⟩ := hGoOn.after h hCases hSplit₁
    obtain rfl : x = z := List.append_cancel_right (hSplit.trans hSplit₂.symm)
    exact ⟨u, hAll⟩
  rcases hRead with ⟨cause, hStops⟩ | ⟨entries, hAccepts⟩
  · -- the cases before the one that stops are kept
    obtain ⟨entries, t₁, hCases, hStop⟩ := exists_cases_of_stops h hStops
    have hTiles := (decided_caseEntry (h.isDecided b) t₁).tiles.joined_append_rest
    rw [hStop.2] at hTiles
    obtain ⟨u, hGoOn⟩ := casesGoOn_of_stops_caseEntry h hStop hTiles
    exact hRest hTiles hGoOn hCases
  · exact hRest (y := []) rfl (.inl ⟨rfl, rfl⟩) ((accepts_entries h.reads).mp hAccepts).1

/-- Cases that go on are completed by a case for `other`. -/
theorem selects_of_casesGoOn {b : Bool} {s x u : List Char}
    (hGoOn : CasesGoOn (R' b) s x u) : Selects (R' b) s x (u ++ otherAndClose) := by
  -- the case for everything else, with an empty message, and the closing brace
  have hOther : ∀ k,
      Cases (R' b) (otherAndClose ++ k) [("other", [])] ('\x7d' :: k) := fun k =>
    .cons (word_otherAndClose k) ⟨[], rfl, by simp, outside_cons (by decide) _⟩
      (h.empty b _)
      (blanks_self (outside_cons (by decide) k)) .nil
  -- nothing of the list was read, or a case of it was begun
  rcases hGoOn with ⟨rfl, rfl⟩ | ⟨w, t, hWord, hAgain⟩
  · exact ⟨fun k => ⟨_, hOther k, by simp⟩,
      fun k => ⟨"other", _, word_otherAndClose k, .inl rfl⟩⟩
  · -- the cases that go on end where that case begins, which is no blank
    have hOutside : ∀ k, Outside isBlank (otherAndClose ++ k) := fun k =>
      outside_isBlank_of_word (word_otherAndClose k)
    refine ⟨?_, ?_⟩
    · intro k
      obtain ⟨entries, t', hCases, -⟩ := hAgain _ (hOutside k)
      rw [List.append_assoc u]
      exact ⟨_, hCases.append (hOther k), by simp⟩
    · intro k
      obtain ⟨entries, t', -, hWord'⟩ := hAgain _ (hOutside k)
      rw [List.append_assoc u]
      exact ⟨w, t', hWord', .inr ⟨t, hWord⟩⟩

/-- A list of cases that stops, or that is not closed, can be completed. -/
theorem selects_of_stops {construct : String} {b requireOther : Bool}
    {node : List (Case Element) → Except NodeError Element} {s x t : List Char}
    {cause : Violation}
    (hStops : (andClose (caseList body construct b requireOther >>= fun cases =>
      checked (node cases))).Stops s (.violation cause) t)
    (hSplit : x ++ t = s) : ∃ u, Selects (R' b) s x u := by
  suffices hRead : (∃ cause,
      (untilClose (caseItem (body b))).Stops s (.violation cause) t) ∨
      ∃ entries, (untilClose (caseItem (body b))).Accepts s entries t by
    obtain ⟨u, hGoOn⟩ := casesGoOn_of_read h hRead hSplit
    exact ⟨_, selects_of_casesGoOn h hGoOn⟩
  -- the list itself stops, or what comes after it does
  rw [andClose, stops_bind_assoc, caseList, stops_bind_assoc, stops_bind] at hStops
  rcases hStops with hStops | ⟨entries, t₁, hEntries, hStops⟩
  · exact .inl ⟨cause, hStops⟩
  · -- nothing is read after the cases, since they end at a brace or at the end of the text
    refine .inr ⟨entries, ?_⟩
    suffices hSame : t₁ = t by rwa [← hSame]
    rw [stops_bind_assoc, stops_require_bind] at hStops
    rcases hStops with ⟨-, -, hSame⟩ | ⟨-, hStops⟩
    · exact hSame
    · simp only [stops_bind, stops_checked, accepts_checked, not_stops_pure, reduceCtorEq,
        and_false, exists_false, false_and, false_or, or_false] at hStops
      obtain ⟨cases, _, ⟨-, rfl⟩, e, _, ⟨-, rfl⟩, hClose⟩ := hStops
      -- the cases are followed by blanks and then by no closing brace
      obtain ⟨hBlanks, hHead, -⟩ := stops_close.mp hClose
      have hEnds := closesHere_of_accepts hEntries
      have hRest := blanks_iff.mp hBlanks
      cases t₁ with
      | nil => exact hRest.symm
      | cons c t₁ =>
        obtain rfl : c = '\x7d' := by simpa [closesHere] using hEnds
        rw [List.dropWhile_cons_of_neg (by decide)] at hRest
        exact absurd (congrArg List.head? hRest) hHead

end

/-! ## Third parts -/

/-- Text that is completed to one from which something is derived, whatever follows,
and that begins outside of a class. -/
structure Completed {α : Type} (P : Production α) (test : Char → Bool) (x u : List Char) :
    Prop where
  derives : ∀ k, ∃ a, P (x ++ (u ++ k)) a k
  outside : ∀ k, Outside test (x ++ (u ++ k))

/-- A style that is missing is put in, and after a style only the closing brace is
missing. -/
theorem completed_styleOnly {id type : String} (hPlain : type ∉ casedTypes)
    {s x t : List Char} {cause : Violation} (hOutside : Outside isBlank s)
    (hStops : (andClose (styleOnly id type (StyleScan.ofSource s))).Stops s
      (.violation cause) t)
    (hSplit : x ++ t = s) : ∃ u, Completed (Argument R' id type) isBlank x u := by
  rw [andClose, styleOnly, stops_bind_assoc, stops_require_bind] at hStops
  rcases hStops with ⟨-, -, rfl⟩ | ⟨hValue, hStops⟩
  · -- no style: a letter is put in
    obtain rfl : x = [] := by simpa using hSplit
    refine ⟨['x', '\x7d'], fun k => ?_, fun k => outside_cons (by decide) _⟩
    have hStyle : Style ('x' :: '\x7d' :: k) ['x'] ('\x7d' :: k) :=
      .last (by decide) (by decide) (.plain (by decide)) (mark_here k) (by simp [isBrace])
    exact ⟨_, .styled hPlain hStyle (mark_here k)⟩
  · -- the blanks after the style have been read, up to its brace or the end of the text
    obtain ⟨style, t₁, hRead, hStops⟩ := by
      simpa only [stops_bind_assoc, stops_bind (p := commitStyle _),
        not_stops_commitStyle, false_or]
        using hStops
    obtain ⟨-, rfl⟩ := accepts_commitStyle.mp hRead
    simp only [stops_bind, stops_checked, accepts_checked, not_stops_pure, reduceCtorEq,
      and_false, exists_false, false_and, false_or, or_false] at hStops
    obtain ⟨e, _, ⟨-, rfl⟩, hClose⟩ := hStops
    obtain ⟨hBlanks, -, -⟩ := stops_close.mp hClose
    have hStyle := style_of_value (by simpa using hValue)
    have hEnd : ∀ b ∈ t.head?, isBrace b = true := by
      obtain ⟨t', hBlanks', hEnd⟩ := exists_blanks_of_style hStyle
      rwa [blanks_iff.mp hBlanks, ← blanks_iff.mp hBlanks']
    -- the style is closed after the blanks that were read, and a quotation left open is closed first
    obtain ⟨y, hText, q, hClosing⟩ := hStyle.exists_closing hBlanks hEnd
    obtain rfl : x = y := List.append_cancel_right (hSplit.trans hText)
    have hNew : ∀ k, x ++ (q ++ ['\x7d'] ++ k) = x ++ (q ++ '\x7d' :: k) := by simp
    -- the closing brace completes the placeholder
    refine ⟨q ++ ['\x7d'], fun k => ?_, fun k => ?_⟩
    · -- the style that is closed is read again
      obtain ⟨v', rest', hStyle', hMark⟩ := hClosing k
      rw [hNew]
      exact ⟨_, .styled hPlain hStyle' hMark⟩
    · rw [hText] at hOutside hStyle
      exact hOutside.append fun hNil => absurd hNil (hStyle.ne_nil hEnd)

section
variable {body body' : Body} {R R' : Bool → Production Message}
  (h : Completes body body' R R')
include h

/-- An offset clause is completed by its number, cases that stop by a case for
`other`. -/
theorem completed_pluralArgument {id type : String} {kind : PluralKind}
    (hKind : type = kind.name) {s x t : List Char} {cause : Violation}
    (hStops : (andClose (pluralArgument body id kind)).Stops s (.violation cause) t)
    (hSplit : x ++ t = s) : ∃ u, Completed (Argument R' id type) isBlank x u := by
  rw [andClose, pluralArgument, stops_bind_assoc, stops_bind] at hStops
  rcases hStops with hStops | ⟨n, t₁, hOffset, hStops⟩
  · -- the clause lacks its number, or has one with too many digits that is not read
    obtain ⟨t₁, rfl, lead, rfl, hLead, -⟩ := exists_keyword_of_stops_offset hStops
    obtain rfl : x = "offset:".toList ++ lead := by
      refine List.append_cancel_right (hSplit.trans ?_)
      rw [List.append_assoc]
    -- after the number come the cases of an empty list that is completed
    have hSelects : Selects (R' true) [] [] ([] ++ otherAndClose) :=
      selects_of_casesGoOn h (.inl ⟨rfl, rfl⟩)
    refine ⟨'1' :: otherAndClose, fun k => ?_, fun k => outside_cons (by decide) _⟩
    obtain ⟨entries, hCases, hOther⟩ := hSelects.derives k
    have hText : "offset:".toList ++ lead ++ ('1' :: otherAndClose ++ k) =
        "offset:".toList ++ (lead ++ '1' :: (otherAndClose ++ k)) := by
      simp only [List.append_assoc, List.cons_append]
    -- the digit that is put in ends the clause, and the cases follow
    have hDigit : Run Char.isDigit ('1' :: (otherAndClose ++ k)) ['1']
        (otherAndClose ++ k) :=
      ⟨rfl, List.all_eq_true.mp (by decide), outside_cons (by decide) _⟩
    rw [hText]
    exact ⟨_, .plural kind hKind
      (.clause ⟨lead, rfl, hLead, outside_cons (by decide) _⟩ hDigit (by decide)
      (by decide) (blanks_self (hSelects.outside k))) hCases hOther⟩
  · by_cases hKeyword : "offset:".toList <+: s
    · -- the clause is kept in front of the cases that are completed
      obtain ⟨r, rfl⟩ := hKeyword
      obtain ⟨x₁, x₂, rfl, hSplit₁, hSplit₂⟩ :=
        exists_split_of_accepts (decided_offset_of_keyword r) hOffset hStops.2 hSplit
      obtain ⟨u, hSelects⟩ := selects_of_stops h hStops hSplit₂
      have hClause := accepts_offset.mp hOffset
      have hBegins : Outside isBlank ("offset:".toList ++ r) := outside_cons (by decide) _
      rw [← hSplit₁] at hClause hBegins
      refine ⟨u, fun k => ?_, fun k => ?_⟩
      · obtain ⟨entries, hCases, hOther⟩ := hSelects.derives k
        have hClause' := hClause.before (by rw [hSplit₁]; exact List.prefix_append ..)
          (hSelects.begins k)
        rw [List.append_assoc]
        exact ⟨_, .plural kind hKind hClause' hCases hOther⟩
      · rw [List.append_assoc]
        exact hBegins.append fun _ => hSelects.outside k
    · -- the cases that are completed do not make up a clause
      rw [Accepts, run_offset_of_not_keyword hKeyword] at hOffset
      obtain ⟨-, rfl⟩ := hOffset
      obtain ⟨u, hSelects⟩ := selects_of_stops h hStops hSplit
      refine ⟨u, fun k => ?_, hSelects.outside⟩
      obtain ⟨entries, hCases, hOther⟩ := hSelects.derives k
      exact ⟨_, .plural kind hKind (.none (hSelects.not_keyword hKeyword k)) hCases
        hOther⟩

/-- The third part of a placeholder is completed up to the closing brace. -/
theorem completed_argument {id type : String} {s x t : List Char} {cause : Violation}
    (hOutside : Outside isBlank s)
    (hStops : (andClose (argument body id type)).Stops s (.violation cause) t)
    (hSplit : x ++ t = s) : ∃ u, Completed (Argument R' id type) isBlank x u := by
  unfold argument at hStops
  split at hStops
  · next kind hKind =>
    -- a plural argument: the clause for the offset, then cases
    exact completed_pluralArgument h (PluralKind.ofName?_eq_some_iff.mp hKind) hStops
      hSplit
  · next hKind =>
    by_cases hSelect : type = selectType
    · -- a select argument: cases
      rw [if_pos hSelect] at hStops
      obtain ⟨u, hSelects⟩ := selects_of_stops h hStops hSplit
      refine ⟨u, fun k => ?_, hSelects.outside⟩
      obtain ⟨entries, hCases, hOther⟩ := hSelects.derives k
      exact ⟨_, .select hSelect hCases hOther⟩
    · rw [if_neg hSelect, Stops, run_andClose_styleArgument] at hStops
      -- any other type: a list of own cases, or a style
      have hPlain : type ∉ casedTypes := not_mem_casedTypes_iff.mpr ⟨hKind, hSelect⟩
      by_cases hList : ((StyleScan.ofSource s).stopsAtOpenBrace &&
        !simpleTypes.contains type) = true
      · rw [thirdPart, if_pos hList] at hStops
        obtain ⟨u, hSelects⟩ := selects_of_stops h hStops hSplit
        refine ⟨u, fun k => ?_, hSelects.outside⟩
        obtain ⟨entries, hCases, hOther⟩ := hSelects.derives k
        -- the list is not empty, so its first brace is the first unquoted one
        obtain ⟨r, hBrace⟩ : ∃ r, FirstBrace (x ++ (u ++ k)) ('\x7b' :: r) := by
          cases entries with
          | nil => simp at hOther
          | cons entry entries => exact firstBrace_of_cases hCases
        have hNotSimple : type ∉ styledTypes :=
          not_contains_simpleTypes_iff.mp (Bool.and_eq_true_iff.mp hList).2
        exact ⟨_, .custom hPlain hNotSimple hBrace hCases⟩
      · -- a style
        rw [thirdPart, if_neg hList] at hStops
        exact completed_styleOnly hPlain hOutside hStops hSplit

end

/-! ## Placeholders -/

/-- A placeholder that stops after blanks is not closed there, or stops in what goes
on. -/
theorem stops_closeOr {α : Type} {p q : Reader α} {s rest : List Char} {fault : Fault} :
    (space >>= fun _ => peek >>= fun next =>
        if next == some '\x7d' then p else q).Stops s fault rest ↔
      (∃ t, Mark '\x7d' s t ∧ p.Stops ('\x7d' :: t) fault rest) ∨
        ∃ t, Blanks s t ∧ t.head? ≠ some '\x7d' ∧ q.Stops t fault rest :=
  closeOr_iff fun result left => result = .error fault ∧ left = rest

/-- Where a comma is called for, it is missing, or the error comes after it and the
blanks behind it. -/
theorem stops_after_comma {α : Type} {q : Reader α} {s x t t₁ : List Char}
    {cause : Violation} (hBlanks : Blanks s t₁)
    (hStops : (separator >>= fun _ => space >>= fun _ => q).Stops t₁ (.violation cause) t)
    (hSplit : x ++ t = s) :
    Blanks s t ∨ ∃ front y t₂, x = front ++ y ∧ y ++ t = t₂ ∧ Outside isBlank t₂ ∧
      q.Stops t₂ (.violation cause) t ∧
      ∀ z, Outside isBlank z → ∃ t₃, Mark ',' (front ++ z) t₃ ∧ Blanks t₃ z := by
  simp only [separator, stops_bind, stops_demand, accepts_demand, not_stops_space,
    false_or, accepts_space] at hStops
  -- the comma is missing after the blanks, or it is there and what follows it stops
  rcases hStops with ⟨-, -, rfl⟩ | ⟨-, t₂, rfl, -, t₃, hAfter, hStops⟩
  · exact .inl hBlanks
  · obtain ⟨lead, rfl, hLead, -⟩ := hBlanks
    obtain ⟨tail, rfl, hTail, hOutside⟩ := hAfter
    have hSuffix : t₃ <:+ lead ++ ',' :: (tail ++ t₃) := ⟨lead ++ ',' :: tail, by simp⟩
    obtain ⟨y, hRest⟩ : t <:+ t₃ := by
      refine List.suffix_of_suffix_length_le ⟨x, hSplit⟩ hSuffix ?_
      rw [← hStops.2]
      exact q.length_rest_le t₃
    -- what was read of the text is the comma with its blanks and then a part of the rest
    refine .inr ⟨lead ++ ',' :: tail, y, t₃, ?_, hRest, hOutside, hStops, fun z hz => ?_⟩
    · refine List.append_cancel_right (hSplit.trans ?_)
      rw [← hRest]
      simp
    · rw [List.append_assoc, List.cons_append]
      exact ⟨tail ++ z, ⟨lead, rfl, hLead, outside_cons (by decide) _⟩,
        ⟨tail, rfl, hTail, hz⟩⟩

/-- A name that is missing is put in, and what follows a name is completed. -/
theorem completed_name {kind : Token.Kind} {what : Expectation}
    {first second : String → Reader Element}
    (hMissing : ∀ k, ∃ e, (second "x").Accepts ('\x7d' :: k) e k)
    (hNext : ∀ w s x t cause, w ≠ "" → (first w).Stops s (.violation cause) t →
      x ++ t = s → ∃ u, Completed (second w).Accepts isWordChar x u)
    {s x t : List Char} {cause : Violation}
    (hStops : (name kind what >>= first).Stops s (.violation cause) t)
    (hSplit : x ++ t = s) :
    ∃ u, ∀ k, ∃ e w t₁, Word (x ++ (u ++ k)) w t₁ ∧ (second w).Accepts t₁ e k := by
  -- the word is missing, and a letter stands for it, or what follows the word stops
  rw [stops_bind] at hStops
  rcases hStops with hName | ⟨w, t₁, hName, hStops⟩
  · obtain ⟨-, -, rfl⟩ := stops_name.mp hName
    obtain rfl : x = [] := by simpa using hSplit
    refine ⟨['x', '\x7d'], fun k => ?_⟩
    obtain ⟨e, hAccepts⟩ := hMissing k
    exact ⟨e, "x", '\x7d' :: k, word_x k, hAccepts⟩
  · -- the word is kept, since what follows it in the completion is no word character
    obtain ⟨y, z, rfl, hText, hRest⟩ :=
      exists_split_of_accepts (decided_name _ _ s) hName hStops.2 hSplit
    have hWord := accepts_name.mp hName
    obtain ⟨u, hCompleted⟩ := hNext w t₁ z t cause hWord.2 hStops hRest
    rw [← hText] at hWord
    refine ⟨u, fun k => ?_⟩
    obtain ⟨e, hAccepts⟩ := hCompleted.derives k
    rw [List.append_assoc]
    exact ⟨e, w, _, hWord.before (hCompleted.outside k), hAccepts⟩

section
variable {body body' : Body} {R R' : Bool → Production Message}
  (h : Completes body body' R R')
include h

/-- A single case for `other` will do for every type that needs cases. -/
theorem exists_argument_otherAndClose (id : String) {type : String}
    (hCased : type ∈ casedTypes) (k : List Char) :
    ∃ e, Argument R' id type (otherAndClose ++ k) e k := by
  have hSelects : ∀ b, Selects (R' b) [] [] ([] ++ otherAndClose) := fun b =>
    selects_of_casesGoOn h (.inl ⟨rfl, rfl⟩)
  simp only [casedTypes, List.mem_cons, List.not_mem_nil, or_false] at hCased
  -- the two plural kinds differ in their names only
  have hPlural : ∀ kind : PluralKind, type = kind.name →
      ∃ e, Argument R' id type (otherAndClose ++ k) e k := by
    intro kind hKind
    obtain ⟨entries, hCases, hOther⟩ := (hSelects true).derives k
    exact ⟨_, .plural kind hKind (.none ((hSelects true).not_keyword (by decide) k))
      hCases hOther⟩
  -- the two plural kinds and the select
  rcases hCased with hCardinal | hOrdinal | hSelect
  · exact hPlural .cardinal hCardinal
  · exact hPlural .ordinal hOrdinal
  · obtain ⟨entries, hCases, hOther⟩ := (hSelects false).derives k
    exact ⟨_, .select hSelect hCases hOther⟩

/-- A placeholder is closed after its type, or gets a case for `other` first. -/
theorem exists_close_afterType {id type : String} (hId : id ≠ "") (hType : type ≠ "")
    {blanks : List Char} (hBlanks : ∀ c ∈ blanks, isBlank c = true) :
    ∃ u, Completed (afterType body' id type).Accepts isWordChar blanks u := by
  -- the blanks that were read and then the mark
  have hMark : ∀ {c}, isBlank c = false → ∀ u, Mark c (blanks ++ c :: u) u :=
    fun hChar u => ⟨blanks, rfl, hBlanks, outside_cons hChar u⟩
  -- a type that takes cases gets a comma and cases, any other a closing brace
  by_cases hCased : type ∈ casedTypes
  · refine ⟨',' :: otherAndClose, fun k => ?_, fun k =>
      outside_isWordChar_of_mark (by decide) (hMark (by decide) (otherAndClose ++ k))⟩
    obtain ⟨e, hArgument⟩ := exists_argument_otherAndClose h id hCased k
    exact ⟨e, (accepts_afterType h.reads' hId hType).mpr (.inr ⟨_, _, hMark (by decide) _,
      blanks_self (outside_isBlank_of_word (word_otherAndClose k)), hArgument⟩)⟩
  · refine ⟨['\x7d'], fun k => ⟨.typed id type none, ?_⟩, fun k =>
      outside_isWordChar_of_mark (by decide) (hMark (by decide) k)⟩
    exact (accepts_afterType h.reads' hId hType).mpr
      (.inl ⟨hMark (by decide) k, hCased, rfl⟩)

/-- What follows the type of an argument is completed up to the closing brace. -/
theorem completed_afterType {id type : String} (hId : id ≠ "") (hType : type ≠ "")
    {s x t : List Char} {cause : Violation}
    (hStops : (afterType body id type).Stops s (.violation cause) t)
    (hSplit : x ++ t = s) :
    ∃ u, Completed (afterType body' id type).Accepts isWordChar x u := by
  -- where only blanks were read, the placeholder is closed, with cases if the type needs them
  have hHere : Blanks s t →
      ∃ u, Completed (afterType body' id type).Accepts isWordChar x u := by
    rintro ⟨blanks, hText, hBlanks, -⟩
    obtain rfl : x = blanks := List.append_cancel_right (hSplit.trans hText)
    exact exists_close_afterType h hId hType hBlanks
  rw [afterType, stops_closeOr] at hStops
  rcases hStops with ⟨t₁, hMark, hStops⟩ | ⟨t₁, hBlanks, -, hStops⟩
  · -- the brace closes too early, since the type needs cases
    rw [stops_require_bind] at hStops
    rcases hStops with ⟨-, -, rfl⟩ | ⟨-, hStops⟩
    · exact hHere hMark
    · simp [stops_bind] at hStops
  · rcases stops_after_comma hBlanks hStops hSplit with
      hMissing | ⟨front, y, t₂, rfl, hRest, hAfter, hStops, hFront⟩
    · exact hHere hMissing
    · -- the third part is completed after the comma and the blanks that were read
      obtain ⟨u, hCompleted⟩ := completed_argument h hAfter hStops hRest
      have hMarks := fun k => hFront _ (hCompleted.outside k)
      refine ⟨u, fun k => ?_, fun k => ?_⟩
      · obtain ⟨e, hArgument⟩ := hCompleted.derives k
        obtain ⟨t₃, hComma, hBlanks'⟩ := hMarks k
        rw [List.append_assoc]
        exact ⟨e, (accepts_afterType h.reads' hId hType).mpr
          (.inr ⟨t₃, _, hComma, hBlanks', hArgument⟩)⟩
      · -- what is completed goes on with the comma, so the type before it ends there
        obtain ⟨t₃, hComma, -⟩ := hMarks k
        rw [List.append_assoc]
        exact outside_isWordChar_of_mark (by decide) hComma

/-- What follows the name of an argument is completed up to the closing brace. -/
theorem completed_afterId {id : String} (hId : id ≠ "") {s x t : List Char}
    {cause : Violation} (hStops : (afterId body id).Stops s (.violation cause) t)
    (hSplit : x ++ t = s) :
    ∃ u, Completed (afterId body' id).Accepts isWordChar x u := by
  rw [afterId, stops_closeOr] at hStops
  rcases hStops with ⟨t₁, hMark, hStops⟩ | ⟨t₁, hBlanks, -, hStops⟩
  · -- an identifier that is closed is a whole placeholder, so nothing stops there
    simp [stops_bind] at hStops
  · rcases stops_after_comma hBlanks hStops hSplit with
      hMissing | ⟨front, y, t₂, rfl, hRest, -, hStops, hFront⟩
    · -- the placeholder is closed where the comma is missing
      obtain ⟨blanks, hText, hInside, -⟩ := hMissing
      obtain rfl : x = blanks := List.append_cancel_right (hSplit.trans hText)
      have hMark : ∀ k, Mark '\x7d' (x ++ (['\x7d'] ++ k)) k := fun k =>
        ⟨x, rfl, hInside, outside_cons (by decide) k⟩
      exact ⟨['\x7d'], fun k =>
        ⟨.simple id, (accepts_afterId hId).mpr (.inl ⟨hMark k, rfl⟩)⟩,
        fun k => outside_isWordChar_of_mark (by decide) (hMark k)⟩
    · -- after the comma a type is completed, for which a letter may stand
      have hMissing : ∀ k, ∃ e,
          (afterType body' id "x").Accepts ('\x7d' :: k) e k := fun k =>
        ⟨_, (accepts_afterType h.reads' hId (by decide)).mpr
          (.inl ⟨mark_here k, by decide, rfl⟩)⟩
      obtain ⟨u, hType⟩ := completed_name hMissing
        (fun type _ _ _ _ hType => completed_afterType h hId hType) hStops hRest
      -- the comma that was read is followed by the type that is completed
      refine ⟨u, fun k => ?_, fun k => ?_⟩
      all_goals
        obtain ⟨e, type, t₃, hWord, hNext⟩ := hType k
        obtain ⟨t₄, hComma, hBlanks'⟩ := hFront _ (outside_isBlank_of_word hWord)
        rw [List.append_assoc]
      · exact ⟨e, (accepts_afterId hId).mpr
          (.inr ⟨t₄, _, type, t₃, hComma, hBlanks', hWord, hNext⟩)⟩
      · exact outside_isWordChar_of_mark (by decide) hComma

/-- A placeholder that stops is completed. -/
theorem completed_placeholder {s x t : List Char} {cause : Violation}
    (hStops : (placeholder body).Stops s (.violation cause) t) (hSplit : x ++ t = s) :
    ∃ u, ∀ k, ∃ e, Placeholder R' (x ++ (u ++ k)) e k := by
  rw [placeholder, stops_bind] at hStops
  rcases hStops with hSpace | ⟨⟨⟩, t₁, hBefore, hStops⟩
  · exact absurd hSpace not_stops_space
  · -- the blanks are kept in front of the identifier that is completed
    obtain ⟨y, z, rfl, hText, hRest⟩ :=
      exists_split_of_accepts (decided_space s) hBefore hStops.2 hSplit
    have hBlanks := accepts_space.mp hBefore
    rw [← hText] at hBlanks
    have hMissing : ∀ k, ∃ e, (afterId body' "x").Accepts ('\x7d' :: k) e k := fun k =>
      ⟨_, (accepts_afterId (by decide)).mpr (.inl ⟨mark_here k, rfl⟩)⟩
    obtain ⟨u, hId⟩ := completed_name hMissing
      (fun id _ _ _ _ hId => completed_afterId h hId) hStops hRest
    refine ⟨u, fun k => ?_⟩
    -- blanks, an identifier, and what follows it make a placeholder
    obtain ⟨e, id, t₂, hWord, hNext⟩ := hId k
    rw [List.append_assoc]
    refine ⟨e, (accepts_placeholder h.reads').mp
      (accepts_bind.mpr ⟨(), z ++ (u ++ k), ?_, ?_⟩)⟩
    · exact accepts_space.mpr (hBlanks.before (outside_isBlank_of_word hWord))
    · exact accepts_bind.mpr ⟨id, t₂, accepts_name.mpr hWord, hNext⟩

end

end Grammar

end MessagePattern
