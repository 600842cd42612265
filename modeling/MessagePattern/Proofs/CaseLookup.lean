import MessagePattern.Proofs.Limits
import MessagePattern.Proofs.Uses
import MessagePattern.Proofs.WellFormed

/-!
# Repeated selectors

A pattern may give a selector several messages. The list of cases is then shorter than what was read:
a selector keeps the place where it came first and chooses the message that came last. As no selector is
left twice, it makes no difference from which end the cases of a parsed placeholder are searched, and
looking up the selector of a case finds that case.

* `Case.Keeps` — which cases are left of the selectors and messages that were read;
* `Case.find?_of_mem`, `Case.find?_eq_none_iff` — looking up a selector;
* `Message.WellFormed.nodup_selectors` — no selector comes twice, at any depth;
* `Grammar.runAt_caseList` — what is made of a list of cases that was read to its end, and what
  looking up gives in a message that was parsed.
-/

namespace MessagePattern

/-- The cases of a placeholder that chooses between messages. -/
def Element.cases : Element → List (Case Element)
  | .plural _ _ _ cases => cases
  | .select _ _ cases => cases
  | _ => []

/-- The nodes below an element are its cases. -/
theorem Element.children_eq (e : Element) : (Node.element e).children = e.cases.map .case := by
  cases e <;> rfl

/-! ## Looking up a selector -/

namespace Case

/-- Nothing is found for a selector that no case has. -/
theorem find?_eq_none_iff {selector : String} {cases : List (Case Element)} :
    find? selector cases = none ↔ selector ∉ cases.map (·.selector) := by
  simp [find?]

/-- Among cases with distinct selectors, the selector of a case finds its message. -/
theorem find?_of_mem {c : Case Element} {cases : List (Case Element)}
    (hDistinct : (cases.map (·.selector)).Nodup) (hCase : c ∈ cases) :
    find? c.selector cases = some c.message := by
  induction cases with
  | nil => simp at hCase
  | cons first rest ih =>
    rw [List.map_cons, List.nodup_cons] at hDistinct
    rcases List.mem_cons.mp hCase with rfl | hRest
    · simp [find?]
    · -- the first case has another selector, so the search goes on
      have hOther : first.selector ≠ c.selector := by
        intro hSame
        exact hDistinct.1 (hSame ▸ List.mem_map_of_mem hRest)
      have hNext : (first.selector == c.selector) = false := beq_false_of_ne hOther
      rw [find?, List.find?_cons, hNext]
      exact ih hDistinct.2 hRest

/-- The cases that are left of selectors and messages: each selector once, in the order of the first
places, and with the last of its messages. -/
structure Keeps (entries : List (String × Message)) (cases : List (Case Element)) : Prop where
  selectors : cases.map (·.selector) = (entries.map (·.1)).eraseDups
  last : ∀ c ∈ cases, ∃ earlier later,
    entries = earlier ++ (c.selector, c.message) :: later ∧ c.selector ∉ later.map (·.1)

end Case

/-- Merging entries keeps the first places of their selectors and the last of their messages. -/
theorem Declared.keeps_merged (entries : List (String × Message)) :
    Case.Keeps entries (merged entries) where
  selectors := selectors_merged entries
  last := by
    intro c hCase
    obtain ⟨selector, -, hFound⟩ := List.mem_filterMap.mp hCase
    obtain ⟨entry, hEntry, rfl⟩ := Option.map_eq_some_iff.mp hFound
    -- what the search from the end passes over comes later
    obtain ⟨hSelector, passed, others, hSplit, hPassed⟩ := List.find?_eq_some_iff_append.mp hEntry
    obtain rfl : entry.1 = selector := by simpa using hSelector
    refine ⟨others.reverse, passed.reverse, ?_, ?_⟩
    · rw [← List.reverse_inj, hSplit]
      simp
    · intro hLater
      obtain ⟨later, hMem, hSame⟩ := List.mem_map.mp hLater
      have hNot := hPassed later (List.mem_reverse.mp hMem)
      simp [hSame] at hNot

/-! ## At any depth -/

/-- A node is an element itself, or what it contains is in a child. -/
theorem Node.contains_iff {n : Node} {e : Element} :
    n.Contains e ↔ n = .element e ∨ ∃ child ∈ n.children, child.Contains e := by
  constructor
  · -- the empty path leads to the node itself, and any other one through a child
    rintro ⟨path, hPath⟩
    cases path with
    | nil => exact .inl (Option.some.inj hPath)
    | cons i path =>
      obtain ⟨child, hChild, hBelow⟩ := Option.bind_eq_some_iff.mp hPath
      exact .inr ⟨child, List.mem_of_getElem? hChild, path, hBelow⟩
  · rintro (rfl | ⟨child, hChild, path, hPath⟩)
    · exact ⟨[], rfl⟩
    · obtain ⟨i, hAt⟩ := List.mem_iff_getElem?.mp hChild
      exact ⟨i :: path, by rw [descendant?, hAt, Option.bind_some, hPath]⟩

/-- What a message contains is one of its elements, or is contained in a case of one. -/
theorem Node.contains_message_iff {m : Message} {e : Element} :
    (Node.message m).Contains e ↔
      ∃ above ∈ m, e = above ∨ ∃ c ∈ above.cases, (Node.message c.message).Contains e := by
  have hCase : ∀ c : Case Element,
      (Node.case c).Contains e ↔ (Node.message c.message).Contains e := fun c => by
    rw [contains_iff]
    simp [children]
  have hElement : ∀ above : Element, (Node.element above).Contains e ↔
      e = above ∨ ∃ c ∈ above.cases, (Node.message c.message).Contains e := fun above => by
    rw [contains_iff, Element.children_eq]
    simp [hCase, eq_comm]
  rw [contains_iff]
  simp [children, hElement]

/-- The cases of a well-formed element are well-formed, with pound signs or without. -/
theorem Element.WellFormed.allWellFormed {inBraces : Bool → Message → Prop} {b : Bool} {e : Element}
    (h : e.WellFormed inBraces b) : ∃ b', Case.AllWellFormed (inBraces b') e.cases := by
  cases e with
  | plural id kind offset cases => exact ⟨true, h.2.2.2⟩
  | select id type cases => exact ⟨false, h.2.2.2.2.2.2⟩
  | _ => exact ⟨false, by simp [cases], by simp [cases], by simp [cases]⟩

/-- No selector comes twice in a placeholder of a well-formed message, however deep it stands. -/
theorem Message.WellFormed.nodup_selectors {nesting : Nat} {b : Bool} {m : Message} {e : Element}
    (h : m.WellFormed nesting b) (hContains : (Node.message m).Contains e) :
    (e.cases.map (·.selector)).Nodup := by
  -- by induction on the nesting; a message in a case is one level down
  induction nesting generalizing b m with
  | zero =>
    obtain ⟨above, hAbove, rfl | ⟨c, hCase, -⟩⟩ := Node.contains_message_iff.mp hContains
    · obtain ⟨b', hCases⟩ := (h.element e hAbove).allWellFormed
      exact hCases.distinct
    · obtain ⟨b', hCases⟩ := (h.element above hAbove).allWellFormed
      exact (hCases.inBraces c hCase).elim
  | succ nesting ih =>
    obtain ⟨above, hAbove, rfl | ⟨c, hCase, hBelow⟩⟩ := Node.contains_message_iff.mp hContains
    · obtain ⟨b', hCases⟩ := (h.element e hAbove).allWellFormed
      exact hCases.distinct
    · obtain ⟨b', hCases⟩ := (h.element above hAbove).allWellFormed
      exact ih (hCases.inBraces c hCase) hBelow

/-- No placeholder of a parsed tree has two cases with the same selector. -/
theorem Parser.nodup_selectors_of_parse {p : Parser} {pattern : PatternValue} {m : Message}
    {e : Element} (h : p.parse pattern = .ok m) (hContains : (Node.message m).Contains e) :
    (e.cases.map (·.selector)).Nodup :=
  (derives_of_parse h).wellFormed.nodup_selectors hContains

/-! ## Lists of cases -/

namespace Reader

variable {α : Type} {p : Reader α} {c : Cursor}

/-- A run at a place that succeeds accepts what stands there. -/
theorem accepts_of_runAt {a : α} (h : (p.runAt c).result = .ok a) :
    p.Accepts c.rest a (p.run c.rest).rest :=
  ⟨eq_ok_of_mapError h, rfl⟩

/-- What is accepted from a place on is the result of the run there. -/
theorem runAt_of_accepts {a : α} {rest : List Char} (h : p.Accepts c.rest a rest) :
    (p.runAt c).result = .ok a := by
  rw [runAt, h.1]
  rfl

/-- A violation that is raised from a place on is the error of the run there. -/
theorem runAt_of_stops {cause : Violation} {rest : List Char}
    (h : p.Stops c.rest (.violation cause) rest) :
    ∃ c', (p.runAt c).result = .error (.rejected (.ofViolation cause c')) := by
  rw [runAt, h.1]
  exact ⟨_, rfl⟩

end Reader

namespace Grammar

open Reader Declared

section
variable {body : Body} {construct : String} {poundIsNumber requireOther : Bool} {s rest : List Char}
  {entries : List (String × Message)}
  (hLoop : (untilClose (caseItem (body poundIsNumber))).Accepts s entries rest)
include hLoop

/-- Where the case for everything else is required and was not read, the list is rejected at its end. -/
theorem stops_caseList (hRequired : requireOther = true)
    (hNone : ∀ entry ∈ entries, entry.1 ≠ otherSelector) :
    (caseList body construct poundIsNumber requireOther).Stops s
      (.violation (.missingOther construct)) rest := by
  refine stops_bind.mpr (.inr ⟨entries, rest, hLoop, stops_require_bind.mpr (.inl ⟨?_, rfl, rfl⟩)⟩)
  simpa [hRequired] using hNone

/-- A list of entries that lacks nothing is accepted as its cases. -/
theorem accepts_caseList_of_entries
    (hOther : ¬(requireOther = true ∧ ∀ entry ∈ entries, entry.1 ≠ otherSelector)) :
    (caseList body construct poundIsNumber requireOther).Accepts s (merged entries) rest := by
  obtain ⟨hCases, hEnds⟩ := (accepts_entries (bracketed_self body)).mp hLoop
  refine (accepts_caseList (bracketed_self body)).mpr ⟨entries, hCases, hEnds, ?_, rfl⟩
  intro hRequired
  by_contra hNone
  refine hOther ⟨hRequired, fun entry hEntry hSame => hNone ?_⟩
  exact List.mem_map.mpr ⟨entry, hEntry, hSame⟩

end

/-- **A repeated selector keeps its first place and takes its last message.** Whatever the context
and the cursor, let the reading of selectors and messages come to the end of a list of cases. What it
read is what the text consists of up to there. The list is rejected for want of the case for everything
else exactly if that case is required and was not read; otherwise there is a list of cases, with each
selector once, in the order of the first places, and with the last of its messages. So in a message
that was parsed, looking up the selector of a case in its placeholder gives the message of that case,
and looking up any other selector gives none. -/
theorem runAt_caseList :
    (∀ (cx : Context) (construct : String) (poundIsNumber requireOther : Bool) (c : Cursor)
        (entries : List (String × Message)),
      ((untilClose (caseItem (subMessage cx poundIsNumber))).runAt c).result = .ok entries →
      (∃ rest, closesHere rest = true ∧
        Cases (fun s m after => ∃ t, after = '\x7d' :: t ∧
          (subMessage cx poundIsNumber).Accepts s m t) c.rest entries rest) ∧
      ((∃ e, ((caseList (subMessage cx) construct poundIsNumber requireOther).runAt c).result =
            .error (.rejected e) ∧ e.diagnostic.code = .missingOther) ↔
          requireOther = true ∧ ∀ entry ∈ entries, entry.1 ≠ otherSelector) ∧
      (¬(requireOther = true ∧ ∀ entry ∈ entries, entry.1 ≠ otherSelector) →
        ∃ cases, ((caseList (subMessage cx) construct poundIsNumber requireOther).runAt c).result =
            .ok cases ∧ Case.Keeps entries cases)) ∧
    ∀ (p : Parser) (pattern : PatternValue) (m : Message), p.parse pattern = .ok m →
      ∀ e, (Node.message m).Contains e →
        (∀ c ∈ e.cases, Case.find? c.selector e.cases = some c.message) ∧
        ∀ selector ∉ e.cases.map (·.selector), Case.find? selector e.cases = none := by
  refine ⟨?list, fun p pattern m hParse e hContains => ⟨fun c hCase => ?_, fun selector hOther => ?_⟩⟩
  case list =>
    intro cx construct poundIsNumber requireOther c entries hRead
    have hLoop := accepts_of_runAt hRead
    -- the entries are what the text consists of, up to the brace that ends the list
    obtain ⟨hCases, hEnds⟩ := (accepts_entries (bracketed_self _)).mp hLoop
    -- the list is kept unless it lacks the case for everything else
    have hKept : ¬(requireOther = true ∧ ∀ entry ∈ entries, entry.1 ≠ otherSelector) →
        ((caseList (subMessage cx) construct poundIsNumber requireOther).runAt c).result =
          .ok (merged entries) := fun hOther =>
      runAt_of_accepts (accepts_caseList_of_entries hLoop hOther)
    refine ⟨⟨_, hEnds, hCases⟩, ⟨?_, ?_⟩, fun hOther => ⟨_, hKept hOther, keeps_merged entries⟩⟩
    · rintro ⟨e, hError, -⟩
      by_contra hOther
      rw [hKept hOther] at hError
      simp at hError
    · rintro ⟨hRequired, hNone⟩
      -- without that case the list stops at its end
      have hStops : (caseList (subMessage cx) construct poundIsNumber requireOther).Stops c.rest
          (.violation (.missingOther construct)) _ := stops_caseList hLoop hRequired hNone
      obtain ⟨c', hError⟩ := runAt_of_stops hStops
      exact ⟨_, hError, rfl⟩
  · exact Case.find?_of_mem (Parser.nodup_selectors_of_parse hParse hContains) hCase
  · exact Case.find?_eq_none_iff.mpr hOther

/-- The message read first under a selector is given up, and the one read last stands in its place. -/
theorem runAt_caseList_of_repeated :
    ((untilClose (caseItem (subMessage {} true))).runAt
        ⟨"\x7bn,plural,one\x7ba\x7d other\x7bb\x7d one\x7bc\x7d\x7d", 10⟩).result =
      .ok [("one", [.text "a"]), ("other", [.text "b"]), ("one", [.text "c"])] ∧
    (∃ cases, ((caseList (subMessage {}) "plural" true true).runAt
        ⟨"\x7bn,plural,one\x7ba\x7d other\x7bb\x7d one\x7bc\x7d\x7d", 10⟩).result = .ok cases ∧
      Case.Keeps [("one", [.text "a"]), ("other", [.text "b"]), ("one", [.text "c"])] cases) ∧
    Parser.parse {} (.text "\x7bn,plural,one\x7ba\x7d other\x7bb\x7d one\x7bc\x7d\x7d") =
      .ok [.plural "n" .cardinal 0 [⟨"one", [.text "c"]⟩, ⟨"other", [.text "b"]⟩]] ∧
    Case.find? "one" [⟨"one", [.text "c"]⟩, ⟨"other", [.text "b"]⟩] = some [.text "c"] ∧
    Case.find? "few" [⟨"one", [.text "c"]⟩, ⟨"other", [.text "b"]⟩] = none := by
  have hParse : Parser.parse {} (.text "\x7bn,plural,one\x7ba\x7d other\x7bb\x7d one\x7bc\x7d\x7d") =
      .ok [.plural "n" .cardinal 0 [⟨"one", [.text "c"]⟩, ⟨"other", [.text "b"]⟩]] := by
    decide +kernel
  have hContains : (Node.message [.plural "n" .cardinal 0
      [⟨"one", [.text "c"]⟩, ⟨"other", [.text "b"]⟩]]).Contains
        (.plural "n" .cardinal 0 [⟨"one", [.text "c"]⟩, ⟨"other", [.text "b"]⟩]) := ⟨[0], rfl⟩
  obtain ⟨hFound, hOther⟩ := runAt_caseList.2 _ _ _ hParse _ hContains
  refine ⟨?loop, (runAt_caseList.1 {} "plural" true true _ _ ?loop).2.2 (by decide), hParse,
    hFound ⟨"one", [.text "c"]⟩ (.head _), hOther "few" (by decide)⟩
  decide +kernel

end Grammar

end MessagePattern
