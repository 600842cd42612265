import MessagePattern.Proofs.Keyed
import MessagePattern.Proofs.Lexemes
import MessagePattern.Proofs.Tiling
import MessagePattern.Tree.Equality

/-!
# The parser accepts exactly the declared grammar

Production by production, what a reader accepts is what the grammar derives. The
productions over sub-messages are matched for any reader of messages in braces, so
the levels of nesting are closed by one induction at the end. Since acceptance is
matched in both directions at once, soundness and completeness are one proof.

* `Grammar.accepts_caseList`, `Grammar.accepts_placeholder`,
  `Grammar.accepts_elements_iff` — the productions over sub-messages;
* `Grammar.accepts_message` — messages;
* `Parser.parse_eq_ok_iff_derives` — the parser.
-/

namespace MessagePattern

/-! ## Merged cases -/

namespace Declared

/-- The merged cases are the entries of the merged list. -/
theorem merged_eq_collapse (entries : List (String × Message)) :
    merged entries = (Keyed.collapse entries).map fun entry => ⟨entry.1, entry.2⟩ := by
  rw [Keyed.collapse_eq, List.map_filterMap, merged]
  congr 1
  funext key
  rw [Keyed.find?, Option.map_map, Option.map_map]
  rfl

/-- The selectors of the merged cases are those of the entries, each at its first
place. -/
theorem selectors_merged (entries : List (String × Message)) :
    (merged entries).map (·.selector) = (entries.map (·.1)).eraseDups := by
  rw [merged_eq_collapse, List.map_map, ← Keyed.keys_collapse]
  rfl

/-- Merging entries neither adds selectors nor drops any. -/
theorem mem_selectors_merged {selector : String} {entries : List (String × Message)} :
    selector ∈ (merged entries).map (·.selector) ↔ selector ∈ entries.map (·.1) := by
  rw [selectors_merged, List.mem_eraseDups]

theorem merged_ne_nil {entries : List (String × Message)} (h : entries ≠ []) :
    merged entries ≠ [] := by
  obtain ⟨entry, hEntry⟩ := List.exists_mem_of_ne_nil entries h
  have hMem : entry.1 ∈ (merged entries).map (·.selector) :=
    mem_selectors_merged.mpr (List.mem_map_of_mem hEntry)
  intro hNil
  simp [hNil] at hMem

/-- A selector of a list of cases is a word. -/
theorem selector_ne_empty {body : Production Message} {s rest : List Char}
    {entries : List (String × Message)} (h : Cases body s entries rest) :
    ∀ entry ∈ entries, entry.1 ≠ "" := by
  induction h with
  | nil => simp
  | cons hWord _ _ _ _ ih =>
    intro entry hEntry
    rcases List.mem_cons.mp hEntry with rfl | hTail
    · exact hWord.2
    · exact ih entry hTail

/-- Where a word begins, no list ends. -/
theorem not_closesHere_of_word {s rest : List Char} {word : String}
    (h : Word s word rest) : Reader.closesHere s = false := by
  obtain ⟨⟨hSplit, hInside, -⟩, hNonempty⟩ := h
  cases hWord : word.toList with
  | nil => exact absurd (String.toList_eq_nil_iff.mp hWord) hNonempty
  | cons c t =>
    rw [hWord, List.cons_append] at hSplit
    have hChar : isWordChar c = true := hInside c (by simp [hWord])
    rw [hSplit, Reader.closesHere]
    refine beq_false_of_ne ?_
    rintro rfl
    exact absurd hChar (by decide)

end Declared

namespace Grammar

open Reader Declared

/-! ## Nodes that are not refused -/

/-- The types for which a reader insists on cases are those that always take them. -/
theorem takesCases_iff {type : String} : takesCases type = true ↔ type ∈ casedTypes := by
  have hPlural : isPluralType type = true ↔ type = "plural" ∨ type = "selectordinal" := by
    rw [isPluralType, Option.isSome_iff_exists]
    simp only [PluralKind.ofName?_eq_some_iff]
    refine ⟨?_, ?_⟩
    · rintro ⟨kind, rfl⟩
      cases kind <;> simp [PluralKind.name]
    · rintro (rfl | rfl)
      · exact ⟨.cardinal, rfl⟩
      · exact ⟨.ordinal, rfl⟩
  rw [takesCases, Bool.or_eq_true, hPlural, beq_iff_eq, casedTypes, selectType]
  simp only [List.mem_cons, List.not_mem_nil, or_false, or_assoc]

/-- The types for which a reader looks for no cases are those that never take any. -/
theorem not_contains_simpleTypes_iff {type : String} :
    (!simpleTypes.contains type) = true ↔ type ∉ styledTypes := by
  rw [Bool.not_eq_true', ← Bool.not_eq_true, List.contains_iff_mem]
  exact Iff.rfl

theorem checkName_eq_ok {role : NameRole} {name : String} (h : name ≠ "") :
    checkName role name = .ok () := by
  simp [checkName, h]

/-- Merged entries pass the check of cases if there are any, and `other` is among them where it is
needed. -/
theorem checkCases_merged {construct : String} {needsOther : Bool}
    {entries : List (String × Message)} (hNonempty : entries ≠ [])
    (hOther : needsOther = true → "other" ∈ entries.map (·.1)) :
    checkCases construct needsOther (merged entries) = .ok () := by
  have hAll :
      ¬(needsOther && (merged entries).all fun c => c.selector != otherSelector) = true := by
    rw [Bool.and_eq_true]
    -- one of the selectors is that of the case that is needed
    rintro ⟨hNeeds, hNone⟩
    obtain ⟨c, hc, hSelector⟩ :=
      List.mem_map.mp (mem_selectors_merged.mpr (hOther hNeeds))
    have := List.all_eq_true.mp hNone c hc
    simp [hSelector, otherSelector] at this
  rw [checkCases, if_neg (by simpa using merged_ne_nil hNonempty), if_neg hAll]

/-- No name but the empty one is refused. -/
theorem simple?_eq_ok {id : String} (hId : id ≠ "") :
    Element.simple? id = .ok (.simple id) := by
  rw [Element.simple?, checkName_eq_ok hId]
  rfl

/-- A placeholder with a type is not refused where the type takes no cases and the style is not
empty. -/
theorem typed?_eq_ok {id type : String} {style : Option String} (hId : id ≠ "")
    (hType : type ≠ "") (hPlain : type ∉ casedTypes) (hStyle : style ≠ some "") :
    Element.typed? id type style = .ok (.typed id type style) := by
  have hTakes : takesCases type = false := by
    rw [← Bool.not_eq_true, takesCases_iff]
    exact hPlain
  have hBeq : (style == some "") = false := by simpa using hStyle
  simp [Element.typed?, checkName_eq_ok hId, checkName_eq_ok hType, hTakes, hBeq, bind,
    Except.bind, pure, Except.pure]

/-- A plural placeholder with a case for `other` is not refused. -/
theorem plural?_eq_ok {id : String} (kind : PluralKind) (n : Nat)
    {entries : List (String × Message)} (hId : id ≠ "")
    (hOther : "other" ∈ entries.map (·.1)) :
    Element.plural? id kind (.integer n) (merged entries) =
      .ok (.plural id kind n (merged entries)) := by
  have hNonempty : entries ≠ [] := by
    rintro rfl
    simp at hOther
  rw [Element.plural?, checkName_eq_ok hId]
  show (checkCases kind.name true (merged entries) >>= fun _ => _) = _
  rw [checkCases_merged hNonempty fun _ => hOther]
  rfl

/-- A placeholder with cases is not refused if its type is not plural, and for `select` if there is a
case for `other`. -/
theorem select?_eq_ok {id type : String} {entries : List (String × Message)}
    (hId : id ≠ "") (hType : type ≠ "") (hPlural : isPluralType type = false)
    (hNonempty : entries ≠ [])
    (hOther : type = selectType → "other" ∈ entries.map (·.1)) :
    Element.select? id type (merged entries) =
      .ok (.select id type (merged entries)) := by
  have hCases : checkCases type (type == selectType) (merged entries) = .ok () :=
    checkCases_merged hNonempty fun hSelect => hOther (by simpa using hSelect)
  simp [Element.select?, checkName_eq_ok hId, checkName_eq_ok hType, hPlural, hCases,
    bind, Except.bind, pure, Except.pure]

/-- Cases with selectors are never refused. -/
theorem mapM_make?_eq_ok {entries : List (String × Message)}
    (h : ∀ entry ∈ entries, entry.1 ≠ "") :
    (entries.mapM fun entry => Case.make? entry.1 entry.2) =
      .ok (entries.map fun entry => ⟨entry.1, entry.2⟩) := by
  induction entries with
  | nil => rfl
  | cons entry rest ih =>
    have hHead : Case.make? entry.1 entry.2 = .ok ⟨entry.1, entry.2⟩ := by
      simp [Case.make?, checkName, h entry (List.mem_cons_self ..), bind, Except.bind,
        pure, Except.pure]
    rw [List.mapM_cons, hHead, ih fun e he => h e (List.mem_cons_of_mem _ he)]
    rfl

/-- Merging cases with selectors gives the merged cases. -/
theorem make?_collapse_eq_ok {entries : List (String × Message)}
    (h : ∀ entry ∈ entries, entry.1 ≠ "") :
    ((Keyed.collapse entries).mapM fun entry => Case.make? entry.1 entry.2) =
      .ok (merged entries) := by
  rw [mapM_make?_eq_ok, merged_eq_collapse]
  intro entry hEntry
  have hKey : entry.1 ∈ (Keyed.collapse entries).map (·.1) := List.mem_map_of_mem hEntry
  rw [Keyed.keys_collapse, List.mem_eraseDups] at hKey
  obtain ⟨e, he, hSame⟩ := List.mem_map.mp hKey
  rw [← hSame]
  exact h e he

/-- A type takes no cases where it is neither one of the plural types nor `select`. -/
theorem not_mem_casedTypes_iff {type : String} :
    type ∉ casedTypes ↔ PluralKind.ofName? type = none ∧ type ≠ selectType := by
  rw [← takesCases_iff, takesCases, isPluralType]
  simp

theorem isPluralType_eq_false {type : String} (hPlain : type ∉ casedTypes) :
    isPluralType type = false := by
  rw [isPluralType, (not_mem_casedTypes_iff.mp hPlain).1]
  rfl

/-- A third part is read as a style, or as cases of one's own, for every type that
need not take cases. -/
theorem argument_of_plain {body : Body} {id type : String} (hPlain : type ∉ casedTypes) :
    argument body id type = styleArgument body id type := by
  obtain ⟨hKind, hSelect⟩ := not_mem_casedTypes_iff.mp hPlain
  rw [argument, hKind]
  exact if_neg hSelect

/-- Where a list ends, the closing brace of the placeholder is the next character. -/
theorem mark_close_iff {s rest : List Char} (hEnds : closesHere s = true) :
    Mark '\x7d' s rest ↔ s = '\x7d' :: rest := by
  rw [Mark, blanks_iff]
  cases s with
  | nil => simp
  | cons c t =>
    obtain rfl : c = '\x7d' := by simpa [closesHere] using hEnds
    rw [List.dropWhile_cons_of_neg (by decide), eq_comm]

/-! ## Parts that hold no messages -/

/-- A style is read as far as it was scanned. -/
theorem accepts_styleOnly {id type : String} (hId : id ≠ "") (hType : type ≠ "")
    (hPlain : type ∉ casedTypes) {s rest : List Char} {e : Element} :
    (styleOnly id type (StyleScan.ofSource s)).Accepts s e rest ↔
      ∃ v, Style s v rest ∧ e = .typed id type (some (String.ofList v)) := by
  have hNode : ∀ {v : List Char}, v ≠ [] →
      Element.typed? id type (some (String.ofList v)) =
        .ok (.typed id type (some (String.ofList v))) := fun hNonempty =>
    typed?_eq_ok hId hType hPlain (by simpa using hNonempty)
  rw [styleOnly, accepts_require_bind]
  simp only [accepts_bind, accepts_commitStyle, accepts_checked]
  refine ⟨?_, ?_⟩
  · -- the value of the scan is not empty, so there is a style
    rintro ⟨hValue, w, t, ⟨rfl, rfl⟩, hTyped, rfl⟩
    have hStyle := style_of_value (by simpa using hValue)
    rw [StyleScan.value, hNode (style_value_ne_nil hStyle), Except.ok.injEq] at hTyped
    exact ⟨_, hStyle, hTyped.symm⟩
  · rintro ⟨v, hStyle, rfl⟩
    have hNonempty := style_value_ne_nil hStyle
    obtain ⟨-, rfl, rfl⟩ := style_iff.mp hStyle
    exact ⟨by simpa [StyleScan.value] using hNonempty, _, _, ⟨rfl, rfl⟩, hNode hNonempty,
      rfl⟩

/-- After blanks, a placeholder is closed or goes on, and what that comes to is what the one or the
other comes to. -/
theorem closeOr_iff {α : Type} {p q : Reader α} {s : List Char}
    (Ends : Except Fault α → List Char → Prop) :
    Ends ((space >>= fun _ => peek >>= fun next =>
        if next == some '\x7d' then p else q).run s).result
      ((space >>= fun _ => peek >>= fun next =>
        if next == some '\x7d' then p else q).run s).rest ↔
      (∃ t, Mark '\x7d' s t ∧ Ends (p.run ('\x7d' :: t)).result (p.run ('\x7d' :: t)).rest) ∨
        ∃ t, Blanks s t ∧ t.head? ≠ some '\x7d' ∧ Ends (q.run t).result (q.run t).rest := by
  have hSpace : space.Accepts s () (s.dropWhile isBlank) := accepts_space.mpr (blanks_iff.mpr rfl)
  rw [run_bind_of_ok hSpace.1, run_peek_bind, hSpace.2]
  simp only [Mark, blanks_iff, exists_eq_left]
  by_cases hHead : (s.dropWhile isBlank).head? = some '\x7d'
  · -- the placeholder is closed here
    obtain ⟨u, hText⟩ := List.head?_eq_some_iff.mp hHead
    simp [hText]
  · -- some other part of it follows
    have hNone : ∀ t, '\x7d' :: t ≠ s.dropWhile isBlank := by
      intro t hText
      simp [← hText] at hHead
    simp [hHead, hNone]

/-- What closes a placeholder, or what goes on, is accepted after blanks. -/
theorem accepts_closeOr {α : Type} {p q : Reader α} {s rest : List Char} {a : α} :
    (space >>= fun _ => peek >>= fun next =>
        if next == some '\x7d' then p else q).Accepts s a rest ↔
      (∃ t, Mark '\x7d' s t ∧ p.Accepts ('\x7d' :: t) a rest) ∨
        ∃ t, Blanks s t ∧ t.head? ≠ some '\x7d' ∧ q.Accepts t a rest :=
  closeOr_iff fun result left => result = .ok a ∧ left = rest

/-- The brace that closes a placeholder may come after blanks. -/
theorem accepts_close {s rest : List Char} {u : Unit} :
    close.Accepts s u rest ↔ Mark '\x7d' s rest := by
  rw [close, accepts_bind]
  simp only [accepts_space, accepts_demand]
  refine ⟨?_, ?_⟩
  · rintro ⟨-, t, hBlanks, rfl⟩
    exact hBlanks
  · intro hMark
    exact ⟨(), _, hMark, rfl⟩

/-- After its name, a placeholder ends, or there is a type after a comma. -/
theorem accepts_afterId {id : String} (hId : id ≠ "") {s rest : List Char} {e : Element} :
    (afterId body id).Accepts s e rest ↔
      (Mark '\x7d' s rest ∧ e = .simple id) ∨
        ∃ t₁ t₂ type t₃, Mark ',' s t₁ ∧ Blanks t₁ t₂ ∧ Word t₂ type t₃ ∧
          (afterType body id type).Accepts t₃ e rest := by
  rw [afterId, accepts_closeOr]
  refine or_congr ?_ ?_
  · -- a brace: the placeholder is simple
    simp only [accepts_take_bind, accepts_checked, simple?_eq_ok hId, Except.ok.injEq]
    refine ⟨?_, ?_⟩
    · rintro ⟨t, hMark, rfl, rfl⟩
      exact ⟨hMark, rfl⟩
    · rintro ⟨hMark, rfl⟩
      exact ⟨rest, hMark, rfl, rfl⟩
  · -- a comma: a type follows
    simp only [separator, accepts_bind, accepts_demand, accepts_space, accepts_name]
    refine ⟨?_, ?_⟩
    · rintro ⟨t, hBlanks, -, -, t₁, rfl, -, t₂, hAfter, type, t₃, hType, hNext⟩
      exact ⟨t₁, t₂, type, t₃, hBlanks, hAfter, hType, hNext⟩
    · rintro ⟨t₁, t₂, type, t₃, hComma, hAfter, hType, hNext⟩
      exact ⟨_, hComma, by simp, (), t₁, rfl, (), t₂, hAfter, type, t₃, hType, hNext⟩

/-- Text is an element where it does not begin with a special character. -/
theorem accepts_textElement {poundIsNumber : Bool} {s rest : List Char} {e : Element}
    (hHead : ∃ c, s.head? = some c ∧ isSpecial poundIsNumber c = false) :
    (text poundIsNumber >>= fun value => pure (.text value)).Accepts s e rest ↔
      ∃ v, TextRun poundIsNumber s v rest ∧ v ≠ [] ∧ e = .text (String.ofList v) := by
  simp only [accepts_bind, accepts_text, accepts_pure]
  refine ⟨?_, ?_⟩
  · rintro ⟨-, t, ⟨v, hRun, rfl⟩, rfl, rfl⟩
    exact ⟨v, hRun, (textRun_value_ne_nil_iff hRun).mpr hHead, rfl⟩
  · rintro ⟨v, hRun, -, rfl⟩
    exact ⟨_, rest, ⟨v, hRun, rfl⟩, rfl, rfl⟩

/-- A list does not end where text can stand. -/
theorem closesHere_of_plain {poundIsNumber : Bool} {c : Char}
    (hPlain : isSpecial poundIsNumber c = false) (t : List Char) :
    closesHere (c :: t) = false := by
  rw [closesHere]
  refine beq_false_of_ne ?_
  rintro rfl
  exact absurd hPlain (by simp [isSpecial, isBrace])

/-- No text stands where a special character does. -/
theorem not_textRun_of_special {poundIsNumber : Bool} {c : Char} {t rest : List Char}
    {e : Element} (hSpecial : isSpecial poundIsNumber c = true) :
    ¬∃ v, TextRun poundIsNumber (c :: t) v rest ∧ v ≠ [] ∧
      e = .text (String.ofList v) := by
  rintro ⟨v, hRun, hNonempty, -⟩
  obtain ⟨b, hHead, hPlain⟩ := (textRun_value_ne_nil_iff hRun).mp hNonempty
  obtain rfl : c = b := by simpa using hHead
  exact absurd (hPlain.symm.trans hSpecial) (by decide)

/-! ## Cases -/

/-- The readers of messages in braces accept what may stand in braces. -/
def Bracketed (body : Body) (R : Bool → Production Message) : Prop :=
  ∀ poundIsNumber s m rest,
    (body poundIsNumber).Accepts s m rest ↔ R poundIsNumber s m ('\x7d' :: rest)

section
variable {body : Body} {R : Bool → Production Message} (hBody : Bracketed body R)
include hBody

/-- A case is a selector and what stands in braces after it. -/
theorem accepts_caseEntry {poundIsNumber : Bool} {s rest : List Char}
    {entry : String × Message} :
    (caseEntry (body poundIsNumber)).Accepts s entry rest ↔
      ∃ t₁ t₂ t₃, Word s entry.1 t₁ ∧ Mark '\x7b' t₁ t₂ ∧
        R poundIsNumber t₂ entry.2 ('\x7d' :: t₃) ∧ Blanks t₃ rest := by
  simp only [caseEntry, accepts_bind, accepts_name, accepts_space, accepts_demand,
    accepts_pure, hBody poundIsNumber]
  refine ⟨?_, ?_⟩
  · rintro ⟨selector, t₁, hWord, -, t₂, hOpen, -, t₃, rfl, m, t₄, hMessage, -, t₅,
      hBlanks, rfl, rfl⟩
    exact ⟨t₁, t₃, t₄, hWord, hOpen, hMessage, hBlanks⟩
  · rintro ⟨t₁, t₂, t₃, hWord, hOpen, hMessage, hBlanks⟩
    exact ⟨_, t₁, hWord, (), _, hOpen, (), t₂, rfl, _, t₃, hMessage, (), rest, hBlanks,
      rfl, rfl⟩

/-- The entries of a list of cases go up to the brace that ends it. -/
theorem accepts_entries {poundIsNumber : Bool} {s rest : List Char}
    {entries : List (String × Message)} :
    (untilClose (caseItem (body poundIsNumber))).Accepts s entries rest ↔
      Cases (R poundIsNumber) s entries rest ∧ closesHere rest = true := by
  refine ⟨?_, ?_⟩
  · intro h
    refine ⟨?_, closesHere_of_accepts h⟩
    -- by induction on the members that the reader takes
    induction s using untilClose_induction (caseItem (body poundIsNumber))
      generalizing entries with
    | step s ih =>
      rcases accepts_untilClose.mp h with ⟨-, rfl, rfl⟩ |
        ⟨hGoesOn, e, t, l, hEntry, hMore, rfl⟩
      · exact .nil
      · obtain ⟨t₁, t₂, t₃, hWord, hOpen, hMessage, hBlanks⟩ :=
          (accepts_caseEntry hBody).mp hEntry
        obtain rfl := hEntry.2
        exact .cons hWord hOpen hMessage hBlanks (ih e hGoesOn hEntry.1 hMore)
  · -- conversely, by induction on the derivation
    rintro ⟨hCases, hEnds⟩
    induction hCases with
    | nil => exact accepts_untilClose.mpr (.inl ⟨hEnds, rfl, rfl⟩)
    | cons hWord hOpen hMessage hBlanks _ ih =>
      refine accepts_untilClose.mpr
        (.inr ⟨not_closesHere_of_word hWord, _, _, _, ?_, ih hEnds, rfl⟩)
      exact (accepts_caseEntry hBody).mpr ⟨_, _, _, hWord, hOpen, hMessage, hBlanks⟩

/-- A list of cases has `other` among its selectors where that is required, and is merged. -/
theorem accepts_caseList {construct : String} {poundIsNumber requireOther : Bool}
    {s rest : List Char} {cases : List (Case Element)} :
    (caseList body construct poundIsNumber requireOther).Accepts s cases rest ↔
      ∃ entries, Cases (R poundIsNumber) s entries rest ∧ closesHere rest = true ∧
        (requireOther = true → "other" ∈ entries.map (·.1)) ∧ cases = merged entries := by
  have hOther : ∀ entries : List (String × Message),
      (!requireOther || entries.any fun entry => entry.1 == otherSelector) = true ↔
        (requireOther = true → "other" ∈ entries.map (·.1)) := fun entries => by
    cases requireOther <;> simp [otherSelector]
  rw [caseList, accepts_bind]
  simp only [accepts_require_bind, accepts_checked, accepts_entries hBody, hOther]
  refine ⟨?_, ?_⟩
  · rintro ⟨entries, t, ⟨hCases, hEnds⟩, hHasOther, hMerged, rfl⟩
    rw [make?_collapse_eq_ok (selector_ne_empty hCases)] at hMerged
    exact ⟨entries, hCases, hEnds, hHasOther, by simpa using hMerged.symm⟩
  · rintro ⟨entries, hCases, hEnds, hHasOther, rfl⟩
    exact ⟨entries, rest, ⟨hCases, hEnds⟩, hHasOther,
      make?_collapse_eq_ok (selector_ne_empty hCases), rfl⟩

/-! ## Arguments -/

/-- The third part of a plural placeholder is an offset, if there is one, and cases. -/
theorem accepts_pluralArgument {id : String} (hId : id ≠ "") {kind : PluralKind}
    {s rest : List Char} {e : Element} :
    (pluralArgument body id kind).Accepts s e rest ↔
      ∃ n t entries, Offset s n t ∧ Cases (R true) t entries rest ∧
        closesHere rest = true ∧ "other" ∈ entries.map (·.1) ∧
        e = .plural id kind n (merged entries) := by
  simp only [pluralArgument, accepts_bind, accepts_offset, accepts_caseList hBody,
    accepts_checked]
  refine ⟨?_, ?_⟩
  · rintro ⟨n, t, hOffset, cases, t', ⟨entries, hCases, hEnds, hOther, rfl⟩, hNode, rfl⟩
    rw [plural?_eq_ok kind n hId (hOther trivial), Except.ok.injEq] at hNode
    exact ⟨n, t, entries, hOffset, hCases, hEnds, hOther trivial, hNode.symm⟩
  · rintro ⟨n, t, entries, hOffset, hCases, hEnds, hOther, rfl⟩
    exact ⟨n, t, hOffset, _, rest, ⟨entries, hCases, hEnds, fun _ => hOther, rfl⟩,
      plural?_eq_ok kind n hId hOther, rfl⟩

/-- The third part of a `select` placeholder is a list of cases with one for `other`. -/
theorem accepts_selectArgument {id : String} (hId : id ≠ "") {s rest : List Char}
    {e : Element} :
    (selectArgument body id).Accepts s e rest ↔
      ∃ entries, Cases (R false) s entries rest ∧ closesHere rest = true ∧
        "other" ∈ entries.map (·.1) ∧ e = .select id "select" (merged entries) := by
  have hNode : ∀ {entries : List (String × Message)}, "other" ∈ entries.map (·.1) →
      Element.select? id selectType (merged entries) =
        .ok (.select id "select" (merged entries)) := by
    intro entries hOther
    refine select?_eq_ok hId (by decide) (by decide) ?_ fun _ => hOther
    rintro rfl
    simp at hOther
  simp only [selectArgument, accepts_bind, accepts_caseList hBody, accepts_checked]
  -- the cases are merged before the node is made
  refine ⟨?_, ?_⟩
  · rintro ⟨cases, t, ⟨entries, hCases, hEnds, hOther, rfl⟩, hSelect, rfl⟩
    rw [hNode (hOther trivial), Except.ok.injEq] at hSelect
    exact ⟨entries, hCases, hEnds, hOther trivial, hSelect.symm⟩
  · rintro ⟨entries, hCases, hEnds, hOther, rfl⟩
    exact ⟨_, rest, ⟨entries, hCases, hEnds, fun _ => hOther, rfl⟩, hNode hOther, rfl⟩

/-- Cases of one's own are read where an unquoted brace opens first. -/
theorem accepts_ownCases {id type : String} (hId : id ≠ "") (hType : type ≠ "")
    (hPlain : type ∉ casedTypes) {s t rest : List Char} {e : Element}
    (hBrace : FirstBrace s ('\x7b' :: t)) :
    (ownCases body id type).Accepts s e rest ↔
      ∃ entries, Cases (R false) s entries rest ∧ closesHere rest = true ∧
        e = .select id type (merged entries) := by
  have hNode : ∀ {entries : List (String × Message)}, Cases (R false) s entries rest →
      closesHere rest = true →
      Element.select? id type (merged entries) =
        .ok (.select id type (merged entries)) := by
    intro entries hCases hEnds
    refine select?_eq_ok hId hType (isPluralType_eq_false hPlain) ?_ fun hSelect =>
      absurd (hSelect ▸ by decide) hPlain
    -- the list is not empty, since it does not begin where it could end
    rintro rfl
    cases hCases
    obtain ⟨v, hPassage⟩ := hBrace
    cases s with
    | nil => cases hPassage
    | cons c u =>
      obtain rfl : c = '\x7d' := by simpa [closesHere] using hEnds
      cases hPassage with
      | more hGoesOn => exact absurd hGoesOn (by decide)
  simp only [ownCases, accepts_bind, accepts_caseList hBody, accepts_checked]
  refine ⟨?_, ?_⟩
  · rintro ⟨cases, t', ⟨entries, hCases, hEnds, -, rfl⟩, hSelect, rfl⟩
    rw [hNode hCases hEnds, Except.ok.injEq] at hSelect
    exact ⟨entries, hCases, hEnds, hSelect.symm⟩
  · rintro ⟨entries, hCases, hEnds, rfl⟩
    exact ⟨_, rest, ⟨entries, hCases, hEnds, by simp, rfl⟩, hNode hCases hEnds, rfl⟩

/-- A third part of any other type is a list of cases where the type is not built in
and the first unquoted brace opens, and a style otherwise. -/
theorem accepts_styleArgument {id type : String} (hId : id ≠ "") (hType : type ≠ "")
    (hPlain : type ∉ casedTypes) {s rest : List Char} {e : Element} :
    (styleArgument body id type).Accepts s e rest ↔
      (∃ t entries, FirstBrace s ('\x7b' :: t) ∧ type ∉ styledTypes ∧
        Cases (R false) s entries rest ∧ closesHere rest = true ∧
        e = .select id type (merged entries)) ∨
      ∃ v, ¬((∃ t, FirstBrace s ('\x7b' :: t)) ∧ type ∉ styledTypes) ∧ Style s v rest ∧
        e = .typed id type (some (String.ofList v)) := by
  have hCustom :
      ((StyleScan.ofSource s).stopsAtOpenBrace && !simpleTypes.contains type) = true ↔
      (∃ t, FirstBrace s ('\x7b' :: t)) ∧ type ∉ styledTypes := by
    rw [Bool.and_eq_true, stopsAtOpenBrace_iff, not_contains_simpleTypes_iff]
  rw [Accepts, run_styleArgument, ← Accepts, thirdPart]
  by_cases hOpens : (∃ t, FirstBrace s ('\x7b' :: t)) ∧ type ∉ styledTypes
  · rw [if_pos (hCustom.mpr hOpens)]
    obtain ⟨⟨t, hBrace⟩, hNotSimple⟩ := hOpens
    rw [accepts_ownCases hBody hId hType hPlain hBrace]
    refine ⟨?_, ?_⟩
    · -- with a brace that opens, only cases are accepted
      rintro ⟨entries, hCases⟩
      exact .inl ⟨t, entries, hBrace, hNotSimple, hCases⟩
    · rintro (⟨-, entries, -, -, hCases⟩ | ⟨v, hNot, -⟩)
      · exact ⟨entries, hCases⟩
      · exact absurd ⟨⟨t, hBrace⟩, hNotSimple⟩ hNot
  · rw [if_neg fun h => hOpens (hCustom.mp h), accepts_styleOnly hId hType hPlain]
    refine ⟨?_, ?_⟩
    · -- without one, or for a built-in type, only a style
      rintro ⟨v, hStyle⟩
      exact .inr ⟨v, hOpens, hStyle⟩
    · rintro (⟨t, entries, hBrace, hNotSimple, -⟩ | ⟨v, -, hStyle⟩)
      · exact absurd ⟨⟨t, hBrace⟩, hNotSimple⟩ hOpens
      · exact ⟨v, hStyle⟩

/-- What is accepted for the third part of a placeholder is one of the four declared kinds of it. -/
theorem argument_of_accepts {id type : String} (hId : id ≠ "") (hType : type ≠ "")
    {s t rest : List Char} {e : Element}
    (hArgument : (argument body id type).Accepts s e t) (hMark : Mark '\x7d' t rest) :
    Argument R id type s e rest := by
  unfold argument at hArgument
  split at hArgument
  · next kind hKind =>
    rw [PluralKind.ofName?_eq_some_iff] at hKind
    obtain ⟨n, t', entries, hOffset, hCases, hEnds, hOther, rfl⟩ :=
      (accepts_pluralArgument hBody hId).mp hArgument
    -- a list of cases leaves no blanks in front of the brace
    obtain rfl := (mark_close_iff hEnds).mp hMark
    exact .plural kind hKind hOffset hCases hOther
  · next hKind =>
    by_cases hSelect : type = selectType
    · -- the type alone tells which cases there have to be
      rw [if_pos hSelect] at hArgument
      obtain ⟨entries, hCases, hEnds, hOther, rfl⟩ :=
        (accepts_selectArgument hBody hId).mp hArgument
      obtain rfl := (mark_close_iff hEnds).mp hMark
      exact .select hSelect hCases hOther
    · rw [if_neg hSelect] at hArgument
      have hPlain : type ∉ casedTypes := not_mem_casedTypes_iff.mpr ⟨hKind, hSelect⟩
      rcases (accepts_styleArgument hBody hId hType hPlain).mp hArgument with
        ⟨t', entries, hBrace, hNotSimple, hCases, hEnds, rfl⟩ | ⟨v, -, hStyle, rfl⟩
      · obtain rfl := (mark_close_iff hEnds).mp hMark
        exact .custom hPlain hNotSimple hBrace hCases
      · exact .styled hPlain hStyle hMark

/-- Each declared kind of the third part is accepted, up to blanks in front of the closing brace. -/
theorem accepts_of_argument {id type : String} (hId : id ≠ "") (hType : type ≠ "")
    {s rest : List Char} {e : Element} (h : Argument R id type s e rest) :
    ∃ t, (argument body id type).Accepts s e t ∧ Mark '\x7d' t rest := by
  have hClose : Mark '\x7d' ('\x7d' :: rest) rest := (mark_close_iff rfl).mpr rfl
  cases h with
  | plural kind hKind hOffset hCases hOther =>
    refine ⟨_, ?_, hClose⟩
    rw [argument, PluralKind.ofName?_eq_some_iff.mpr hKind]
    exact (accepts_pluralArgument hBody hId).mpr
      ⟨_, _, _, hOffset, hCases, rfl, hOther, rfl⟩
  | select hSelect hCases hOther =>
    subst hSelect
    exact ⟨_, (accepts_selectArgument hBody hId).mpr ⟨_, hCases, rfl, hOther, rfl⟩,
      hClose⟩
  | custom hPlain hNotSimple hBrace hCases =>
    refine ⟨_, ?_, hClose⟩
    rw [argument_of_plain hPlain]
    exact (accepts_styleArgument hBody hId hType hPlain).mpr
      (.inl ⟨_, _, hBrace, hNotSimple, hCases, rfl, rfl⟩)
  | styled hPlain hStyle hMark =>
    refine ⟨_, ?_, hMark⟩
    rw [argument_of_plain hPlain]
    refine (accepts_styleArgument hBody hId hType hPlain).mpr (.inr ⟨_, ?_, hStyle, rfl⟩)
    -- the first unquoted brace is the one that closes the placeholder
    rintro ⟨⟨t', hBrace⟩, -⟩
    have hFirst := style_firstBrace hStyle hMark fun b hb => by
      obtain rfl : '\x7d' = b := by simpa using hb
      rfl
    rw [firstBrace_iff] at hBrace hFirst
    exact absurd (hBrace.symm.trans hFirst) (by simp)

/-- The third part of a placeholder and its closing brace, by the type of the
argument. -/
theorem accepts_argument_mark {id type : String} (hId : id ≠ "") (hType : type ≠ "")
    {s rest : List Char} {e : Element} :
    (∃ t, (argument body id type).Accepts s e t ∧ Mark '\x7d' t rest) ↔
      Argument R id type s e rest :=
  ⟨fun ⟨_, hArgument, hMark⟩ => argument_of_accepts hBody hId hType hArgument hMark,
    accepts_of_argument hBody hId hType⟩

/-! ## Placeholders -/

/-- After its type, a placeholder ends, unless the type takes cases, or there is a third part after a
comma. -/
theorem accepts_afterType {id type : String} (hId : id ≠ "") (hType : type ≠ "")
    {s rest : List Char} {e : Element} :
    (afterType body id type).Accepts s e rest ↔
      (Mark '\x7d' s rest ∧ type ∉ casedTypes ∧ e = .typed id type none) ∨
        ∃ t₁ t₂, Mark ',' s t₁ ∧ Blanks t₁ t₂ ∧ Argument R id type t₂ e rest := by
  have hNode : type ∉ casedTypes →
      Element.typed? id type none = .ok (.typed id type none) :=
    fun hPlain => typed?_eq_ok hId hType hPlain (by simp)
  have hTakes : (!takesCases type) = true ↔ type ∉ casedTypes := by
    rw [← takesCases_iff]
    simp
  rw [afterType, accepts_closeOr]
  refine or_congr ?_ ?_
  · -- a brace: the placeholder has a type and no more
    simp only [accepts_require_bind, hTakes, accepts_take_bind, accepts_checked]
    refine ⟨?_, ?_⟩
    · rintro ⟨t, hMark, hPlain, hTyped, rfl⟩
      rw [hNode hPlain, Except.ok.injEq] at hTyped
      exact ⟨hMark, hPlain, hTyped.symm⟩
    · rintro ⟨hMark, hPlain, rfl⟩
      exact ⟨rest, hMark, hPlain, hNode hPlain, rfl⟩
  · -- a comma: the third part follows
    simp only [separator, accepts_bind, accepts_demand, accepts_space, accepts_close,
      accepts_pure]
    refine ⟨?_, ?_⟩
    · rintro ⟨t, hBlanks, -, -, t₁, rfl, -, t₂, hAfter, e', t₃, hArgument, -, t₄, hMark,
        rfl, rfl⟩
      exact ⟨t₁, t₂, hBlanks, hAfter,
        (accepts_argument_mark hBody hId hType).mp ⟨t₃, hArgument, hMark⟩⟩
    · rintro ⟨t₁, t₂, hComma, hAfter, hThird⟩
      obtain ⟨t₃, hArgument, hMark⟩ := (accepts_argument_mark hBody hId hType).mpr hThird
      exact ⟨_, hComma, by simp, (), t₁, rfl, (), t₂, hAfter, e, t₃, hArgument, (), rest,
        hMark, rfl, rfl⟩

/-- What is accepted for a placeholder is what is declared to be one. -/
theorem accepts_placeholder {s rest : List Char} {e : Element} :
    (placeholder body).Accepts s e rest ↔ Placeholder R s e rest := by
  simp only [placeholder, accepts_bind, accepts_space, accepts_name]
  refine ⟨?_, ?_⟩
  · rintro ⟨-, t₁, hBefore, id, t₂, hId, hNext⟩
    rcases (accepts_afterId hId.2).mp hNext with
      ⟨hMark, rfl⟩ | ⟨t₃, t₄, type, t₅, hComma, hBetween, hType, hNext⟩
    · -- closed after the name
      exact .simple hBefore hId hMark
    · rcases (accepts_afterType hBody hId.2 hType.2).mp hNext with
        ⟨hMark, hPlain, rfl⟩ | ⟨t₆, t₇, hComma', hAfter, hArgument⟩
      · -- closed after the type
        exact .typed hBefore hId hComma hBetween hType hMark hPlain
      · exact .full ⟨t₁, t₂, t₃, t₄, t₅, t₆, hBefore, hId, hComma, hBetween, hType,
          hComma', hAfter⟩
          hArgument
  · intro h
    cases h with
    | simple hBefore hId hMark =>
      exact ⟨(), _, hBefore, _, _, hId, (accepts_afterId hId.2).mpr (.inl ⟨hMark, rfl⟩)⟩
    | typed hBefore hId hComma hBetween hType hMark hPlain =>
      refine ⟨(), _, hBefore, _, _, hId, (accepts_afterId hId.2).mpr (.inr ?_)⟩
      exact ⟨_, _, _, _, hComma, hBetween, hType,
        (accepts_afterType hBody hId.2 hType.2).mpr (.inl ⟨hMark, hPlain, rfl⟩)⟩
    | full hHeader hArgument =>
      obtain ⟨t₁, t₂, t₃, t₄, t₅, t₆, hBefore, hId, hComma, hBetween, hType, hComma',
          hAfter⟩ := hHeader
      refine ⟨(), t₁, hBefore, _, t₂, hId, (accepts_afterId hId.2).mpr (.inr ?_)⟩
      exact ⟨t₃, t₄, _, t₅, hComma, hBetween, hType,
        (accepts_afterType hBody hId.2 hType.2).mpr
        (.inr ⟨t₆, _, hComma', hAfter, hArgument⟩)⟩

/-! ## Messages -/

/-- By its first character, an element is a placeholder, a pound sign or text. -/
theorem accepts_element {poundIsNumber : Bool} {s rest : List Char} {e : Element}
    (hGoesOn : closesHere s = false) :
    (element body poundIsNumber).Accepts s e rest ↔
      (∃ v, TextRun poundIsNumber s v rest ∧ v ≠ [] ∧ e = .text (String.ofList v)) ∨
      (poundIsNumber = true ∧ s = '#' :: rest ∧ e = .pound) ∨
      ∃ t, s = '\x7b' :: t ∧ Placeholder R t e rest := by
  rw [element, accepts_peek_bind]
  split
  · -- an opening brace begins a placeholder and no text
    next hHead =>
    obtain ⟨t, rfl⟩ := List.head?_eq_some_iff.mp hHead
    have hNone := @not_textRun_of_special poundIsNumber '\x7b' t rest e rfl
    simp [hNone, accepts_placeholder hBody]
  · -- a pound sign is an element of its own, or text like any other character
    next hHead =>
    obtain ⟨t, rfl⟩ := List.head?_eq_some_iff.mp hHead
    cases poundIsNumber with
    | true =>
      have hNone := @not_textRun_of_special true '#' t rest e rfl
      simp only [hNone, if_true, accepts_take_bind, accepts_pure, false_or, true_and]
      simp [eq_comm, and_comm]
    | false =>
      rw [if_neg (by decide), accepts_textElement ⟨'#', rfl, rfl⟩]
      simp
  · next hOpen hPound =>
    -- any other character begins a text
    obtain ⟨c, t, rfl⟩ := exists_cons_of_goesOn hGoesOn
    have hNotOpen : c ≠ '\x7b' := fun h => hOpen (by rw [h]; rfl)
    have hNotPound : c ≠ '#' := fun h => hPound (by rw [h]; rfl)
    have hNotClose : c ≠ '\x7d' := by simpa [closesHere] using hGoesOn
    rw [accepts_textElement
      ⟨c, rfl, by simp [isSpecial, isBrace, hNotOpen, hNotPound, hNotClose]⟩]
    simp [hNotOpen, hNotPound]

/-- A list of elements is accepted exactly where it is declared, up to where it ends. -/
theorem accepts_elements_iff {poundIsNumber : Bool} {s rest : List Char} {m : Message} :
    (untilClose (elementItem body poundIsNumber)).Accepts s m rest ↔
      Elements R poundIsNumber s m rest ∧ closesHere rest = true := by
  refine ⟨?_, ?_⟩
  · intro h
    refine ⟨?_, closesHere_of_accepts h⟩
    induction s using untilClose_induction (elementItem body poundIsNumber)
      generalizing m with
    | step s ih =>
      rcases accepts_untilClose.mp h with ⟨-, rfl, rfl⟩ |
        ⟨hGoesOn, e, t, l, hElement, hMore, rfl⟩
      · -- the list ends here
        exact .nil
      · have hRest : Elements R poundIsNumber t l rest := by
          obtain rfl := hElement.2
          exact ih e hGoesOn hElement.1 hMore
        -- by the first element: text, a pound sign or a placeholder
        rcases (accepts_element hBody hGoesOn).mp hElement with
          ⟨v, hRun, hNonempty, rfl⟩ | ⟨hPound, rfl, rfl⟩ | ⟨u, rfl, hPlaceholder⟩
        · exact .text hRun hNonempty hRest
        · exact .pound hPound hRest
        · exact .placeholder hPlaceholder hRest
  · rintro ⟨hElements, hEnds⟩
    induction hElements with
    | nil => exact accepts_untilClose.mpr (.inl ⟨hEnds, rfl, rfl⟩)
    | @text s v t m rest hRun hNonempty _ ih =>
      have hGoesOn : closesHere s = false := by
        obtain ⟨c, hHead, hPlain⟩ := (textRun_value_ne_nil_iff hRun).mp hNonempty
        obtain ⟨u, rfl⟩ := List.head?_eq_some_iff.mp hHead
        exact closesHere_of_plain hPlain u
      refine accepts_untilClose.mpr (.inr ⟨hGoesOn, _, t, m, ?_, ih hEnds, rfl⟩)
      exact (accepts_element hBody hGoesOn).mpr (.inl ⟨v, hRun, hNonempty, rfl⟩)
    | @pound s m rest hPound _ ih =>
      refine accepts_untilClose.mpr (.inr ⟨rfl, _, s, m, ?_, ih hEnds, rfl⟩)
      exact (accepts_element hBody rfl).mpr (.inr (.inl ⟨hPound, rfl, rfl⟩))
    | @placeholder s e t m rest hPlaceholder _ ih =>
      refine accepts_untilClose.mpr (.inr ⟨rfl, _, t, m, ?_, ih hEnds, rfl⟩)
      exact (accepts_element hBody rfl).mpr (.inr (.inr ⟨s, rfl, hPlaceholder⟩))

end

theorem levelsLeft_of_isFull {cx : Context} (hFull : cx.isFull = true) :
    cx.levelsLeft = 0 := by
  simp only [Context.isFull, decide_eq_true_eq] at hFull
  simp only [Context.levelsLeft]
  omega

theorem levelsLeft_enter {cx : Context} (hRoom : ¬cx.isFull = true)
    (poundIsNumber : Bool) :
    cx.levelsLeft = (cx.enter poundIsNumber).levelsLeft + 1 := by
  simp only [Context.isFull, decide_eq_true_eq] at hRoom
  simp only [Context.levelsLeft, Context.enter]
  omega

theorem isTopLevel_enter {cx : Context} (hDepth : 0 ≤ cx.depth) (poundIsNumber : Bool) :
    (cx.enter poundIsNumber).isTopLevel = false := by
  simp only [Context.isTopLevel, Context.enter]
  exact beq_false_of_ne (by omega)

/-- What a reader of messages accepts, in terms of the grammar. -/
def Matches (cx : Context) : Prop :=
  ∀ s m rest, (message cx).Accepts s m rest ↔
    MessageAt cx.levelsLeft cx.poundIsNumber s m rest ∧ closesHere rest = true ∧
      (cx.isTopLevel = true → rest = [])

theorem bracketed_subMessage_of_matches {cx : Context} (hDepth : 0 ≤ cx.depth)
    (hBelow : ¬cx.isFull = true → ∀ poundIsNumber, Matches (cx.enter poundIsNumber)) :
    Bracketed (subMessage cx) (InBraces cx.levelsLeft) := by
  intro poundIsNumber s m rest
  by_cases hFull : cx.isFull = true
  · -- no message may stand here, and none does
    rw [levelsLeft_of_isFull hFull]
    simp [subMessage, hFull, InBraces]
  · -- below the top level a message is left at its closing brace
    rw [levelsLeft_enter hFull poundIsNumber, subMessage, if_neg hFull, closed,
      accepts_bind]
    simp only [accepts_bind, accepts_demand, accepts_pure,
      hBelow hFull poundIsNumber _ _ _, isTopLevel_enter hDepth]
    refine ⟨?_, ?_⟩
    · rintro ⟨m, t, ⟨hMessage, -, -⟩, -, t', rfl, rfl, rfl⟩
      exact hMessage
    · intro hMessage
      exact ⟨m, _, ⟨hMessage, rfl, by simp⟩, (), rest, rfl, rfl, rfl⟩

/-- A message at a level is one whose cases nest within the levels that are left. -/
theorem accepts_message {cx : Context} (hDepth : 0 ≤ cx.depth) : Matches cx := by
  induction cx using message_induction with
  | step cx ih =>
    intro s m rest
    have hBody := bracketed_subMessage_of_matches hDepth fun hRoom b => ih hRoom b (by
      simp only [Context.enter]
      omega)
    rw [message_eq, accepts_elements, accepts_elements_iff hBody, messageAt_eq, and_assoc]

/-- A message in braces is one whose cases nest within the levels below. -/
theorem bracketed_subMessage {cx : Context} (hDepth : 0 ≤ cx.depth) :
    Bracketed (subMessage cx) (InBraces cx.levelsLeft) :=
  bracketed_subMessage_of_matches hDepth fun _ b => accepts_message (by
    simp only [Context.enter]
    omega)

end Grammar

/-! ## The parser -/

namespace Parser

open Declared

/-- **The parser accepts exactly the declared grammar.** Without a limit on the
length of patterns, a pattern parses to a message exactly when the grammar derives
the message from it, with cases that nest within the limit. -/
theorem parse_eq_ok_iff_derives (p : Parser) (hLength : p.maxLength ≤ 0) (s : String)
    (m : Message) : p.parse (.text s) = .ok m ↔ Derives p.maxNesting.toNat s m := by
  have hShort : ¬(0 < p.maxLength ∧
    p.maxLength < (PatternValue.text s).toText.length) := by
    rintro ⟨hLimited, -⟩
    omega
  have hReply : (p.reply s).result = .ok m ↔
      (Grammar.message p.rootContext).Accepts s.toList m [] :=
    ⟨fun hOk => ⟨hOk, reply_rest_of_ok hOk⟩, fun hAccepts => hAccepts.1⟩
  have hLevels : p.rootContext.levelsLeft = p.maxNesting.toNat := by
    rw [Context.levelsLeft, rootContext, Int.sub_zero]
  rw [parse_eq_ok_iff hShort]
  -- a parse is a reading of the whole text at the top level
  show (p.reply s).result = .ok m ↔ _
  rw [hReply, Grammar.accepts_message (Int.le_refl 0), hLevels, Derives]
  refine ⟨?_, ?_⟩
  · rintro ⟨hMessage, -, -⟩
    exact hMessage
  · intro hMessage
    exact ⟨hMessage, rfl, fun _ => rfl⟩

/-- Quoted text, then a plural placeholder with an offset clause and one level of
cases. -/
theorem derives_plural_after_quoted :
    (Parser.mk 0 1).maxLength ≤ 0 ∧
      Derives 1 "a'\x7b' \x7bn, plural, offset:1 other\x7b#\x7d\x7d"
        [.text "a\x7b ", .plural "n" .cardinal 1 [⟨"other", [.pound]⟩]] :=
  ⟨by decide, (parse_eq_ok_iff_derives ⟨0, 1⟩ (by decide) _ _).mp (by decide +kernel)⟩

end Parser

end MessagePattern
