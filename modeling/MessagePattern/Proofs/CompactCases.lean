import Mathlib.Data.List.Nodup
import MessagePattern.Proofs.CaseLookup
import MessagePattern.Proofs.CompactForm

/-!
# Cases in the compact form

The compact form of a placeholder with cases ends in an object from selectors to forms. Its keys are the
selectors, and under each stands the form of the last case with that selector. Looking a selector up in
the placeholder gives the first case instead. The two agree where no selector is repeated, as in every
message that was parsed; a placeholder built by hand may repeat one, and then they need not.

* `Element.exists_form_eq`, `Case.find?_members` — the object, and what stands under a selector;
* `Element.compact_cases` — its keys, what stands under them, and when looking up agrees;
* `Element.compact_cases_ne_lookup` — a placeholder where it does not.
-/

namespace MessagePattern

/-! ## The object of cases -/

/-- The members that cases become in the compact form, before they are merged. -/
def Case.members (cases : List (Case Element)) : List (String × Json) :=
  cases.map fun c => (c.selector, (Node.message c.message).form)

/-- The keys of the members are the selectors of the cases. -/
theorem Case.keys_members (cases : List (Case Element)) :
    (members cases).map (·.1) = cases.map (·.selector) := by
  rw [members, List.map_map]
  rfl

/-- Under a selector stands the form of the first case with it. -/
theorem Case.find?_members (selector : String) (cases : List (Case Element)) :
    Keyed.find? selector (members cases) =
      (find? selector cases).map fun m => (Node.message m).form := by
  rw [Keyed.find?, find?, members, List.find?_map, Option.map_map, Option.map_map]
  rfl

/-- The form of a placeholder with cases ends with the members of its cases, merged. -/
theorem Element.exists_form_eq {e : Element} (hTakes : (Node.element e).takesLevel = true) :
    ∃ head, (Node.element e).form =
      .arr (head ++ [.obj (Keyed.collapse (Case.members e.cases))]) := by
  cases e with
  | plural id kind offset cases =>
    refine ⟨[.str id, .str kind.name, .int offset], ?_⟩
    rw [Node.form]
    simp only [Node.form_case]
    rfl
  | select id type cases =>
    refine ⟨[.str id, .str type], ?_⟩
    rw [Node.form]
    simp only [Node.form_case]
    rfl
  | _ => exact absurd hTakes Bool.false_ne_true

/-- The form of a message in a case takes no more frames than that of the placeholder. -/
theorem Element.formFrames_case_le {e : Element} {c : Case Element} (hCase : c ∈ e.cases) :
    (Node.message c.message).formFrames ≤ (Node.element e).formFrames := by
  have hMost : (Node.message c.message).formFrames ≤
      (e.cases.map fun c => (Node.message c.message).formFrames).foldr max 0 :=
    List.le_max_of_le (List.mem_map_of_mem hCase) (Nat.le_refl _)
  cases e with
  | plural id kind offset cases | select id type cases =>
    refine hMost.trans ?_
    rw [Node.formFrames]
    show (cases.map _).foldr max 0 ≤ _
    omega
  | _ => simp [Element.cases] at hCase

/-- Where there is room for a placeholder there is room for the messages of its cases. -/
theorem Element.compact_case {e : Element} {g : DepthGuard} {room : Nat} {c : Case Element}
    (hRoom : g.HasRoom ((Node.element e).levels Node.takesLevel))
    (hFrames : (Node.element e).formFrames ≤ room) (hCase : c ∈ e.cases) :
    (Node.message c.message).compact g room = .ok (Node.message c.message).form := by
  have hChild : Node.case c ∈ (Node.element e).children := by
    rw [Element.children_eq]
    exact List.mem_map_of_mem hCase
  have hLevels := Node.levels_child_le Node.takesLevel hChild
  rw [Node.levels_case] at hLevels
  exact Node.compact_eq (hRoom.of_le (by omega)) ((formFrames_case_le hCase).trans hFrames)

/-- What is left under a selector when the members are merged is the form of the last case with it. -/
theorem Case.find?_collapse_members (selector : String) (cases : List (Case Element)) :
    Keyed.find? selector (Keyed.collapse (members cases)) =
      (find? selector cases.reverse).map fun m => (Node.message m).form := by
  rw [Keyed.find?_collapse, ← find?_members, members, members, List.map_reverse]

/-! ## The object and looking up -/

/-- Under a selector stands the compact form of the message that was found. -/
def Json.ShowsUnder (g : DepthGuard) (room : Nat) (members : List (String × Json))
    (selector : String) (found : Option Message) : Prop :=
  ∃ m form, found = some m ∧ (Node.message m).compact g room = .ok form ∧
    Keyed.find? selector members = some form

/-- What is found for the selector of a case is the message of a case. -/
theorem Case.exists_find?_of_mem {selector : String} {cases : List (Case Element)}
    (h : selector ∈ cases.map (·.selector)) :
    ∃ c ∈ cases, find? selector cases = some c.message := by
  cases hFound : cases.find? fun c => c.selector == selector with
  | none =>
    have hNone : find? selector cases = none := by rw [find?, hFound]; rfl
    exact absurd h (find?_eq_none_iff.mp hNone)
  | some c => exact ⟨c, List.mem_of_find?_eq_some hFound, by rw [find?, hFound]; rfl⟩

namespace Element

section
variable {e : Element} {g : DepthGuard} {room : Nat}
  (hRoom : g.HasRoom ((Node.element e).levels Node.takesLevel))
  (hFrames : (Node.element e).formFrames ≤ room) {selector : String}
  (hSelector : selector ∈ e.cases.map (·.selector))
include hRoom hFrames hSelector

/-- Under a selector stands the form of the last case with it. -/
theorem showsUnder_last :
    Json.ShowsUnder g room (Keyed.collapse (Case.members e.cases)) selector
      (Case.find? selector e.cases.reverse) := by
  have hLast : selector ∈ e.cases.reverse.map (·.selector) := by
    rwa [List.map_reverse, List.mem_reverse]
  obtain ⟨c, hCase, hFound⟩ := Case.exists_find?_of_mem hLast
  refine ⟨c.message, _, hFound, compact_case hRoom hFrames (List.mem_reverse.mp hCase), ?_⟩
  rw [Case.find?_collapse_members, hFound]
  rfl

/-- Under a selector stands the form of the first case with it exactly if the last one has the same. -/
theorem showsUnder_first_iff :
    Json.ShowsUnder g room (Keyed.collapse (Case.members e.cases)) selector
        (Case.find? selector e.cases) ↔
      ∀ first last, Case.find? selector e.cases = some first →
        Case.find? selector e.cases.reverse = some last →
        (Node.message first).compact g room = (Node.message last).compact g room := by
  -- there is a last case and a first one, and the last one is shown
  obtain ⟨last, lastForm, hLast, hLastForm, hShown⟩ := showsUnder_last hRoom hFrames hSelector
  obtain ⟨c, hCase, hFirst⟩ := Case.exists_find?_of_mem hSelector
  constructor
  · -- the form under the selector is that of the last case, so it is that of the first one too
    rintro ⟨m, form, hFound, hForm, hUnder⟩ first last' hFirst' hLast'
    obtain rfl : m = first := Option.some.inj (hFound.symm.trans hFirst')
    obtain rfl : last = last' := Option.some.inj (hLast.symm.trans hLast')
    obtain rfl : form = lastForm := Option.some.inj (hUnder.symm.trans hShown)
    rw [hForm, hLastForm]
  · intro hSame
    exact ⟨c.message, lastForm, hFirst, (hSame _ _ hFirst hLast).trans hLastForm, hShown⟩

/-- Where no selector is repeated the first case with a selector is the last. -/
theorem showsUnder_first_of_nodup (hDistinct : (e.cases.map (·.selector)).Nodup) :
    Json.ShowsUnder g room (Keyed.collapse (Case.members e.cases)) selector
      (Case.find? selector e.cases) := by
  refine (showsUnder_first_iff hRoom hFrames hSelector).mpr fun first last hFirst hLast => ?_
  obtain ⟨c, hCase, rfl⟩ := List.mem_map.mp hSelector
  have hReversed : (e.cases.reverse.map (·.selector)).Nodup := by
    rwa [List.map_reverse, List.nodup_reverse]
  have hFound := Case.find?_of_mem hDistinct hCase
  have hFoundLast := Case.find?_of_mem hReversed (List.mem_reverse.mpr hCase)
  rw [← Option.some.inj (hFound.symm.trans hFirst),
    ← Option.some.inj (hFoundLast.symm.trans hLast)]

end

/-- **The last case with a selector is shown, and the first is looked up.** A placeholder with cases that
the guard and the stack have room for has a compact form that ends in an object. The keys of the object are
the selectors, each at its first place, and under each stands the form of the last case with it. It is
the form of the message that looking up gives just if the first and the last case with the selector
have the same form. So it always is where no selector is repeated, and thus in every message that was
parsed. -/
theorem compact_cases (e : Element) (g : DepthGuard) (room : Nat)
    (hTakes : (Node.element e).takesLevel = true)
    (hRoom : g.HasRoom ((Node.element e).levels Node.takesLevel))
    (hFrames : (Node.element e).formFrames ≤ room) :
    ∃ head members, (Node.element e).compact g room = .ok (.arr (head ++ [.obj members])) ∧
      members.map (·.1) = (e.cases.map (·.selector)).eraseDups ∧
      (∀ selector ∈ e.cases.map (·.selector),
        Json.ShowsUnder g room members selector (Case.find? selector e.cases.reverse) ∧
        (Json.ShowsUnder g room members selector (Case.find? selector e.cases) ↔
          ∀ first last, Case.find? selector e.cases = some first →
            Case.find? selector e.cases.reverse = some last →
            (Node.message first).compact g room = (Node.message last).compact g room)) ∧
      ((e.cases.map (·.selector)).Nodup ∨
          (∃ (p : Parser) (pattern : PatternValue) (m : Message),
            p.parse pattern = .ok m ∧ (Node.message m).Contains e) →
        ∀ selector ∈ e.cases.map (·.selector),
          Json.ShowsUnder g room members selector (Case.find? selector e.cases)) := by
  obtain ⟨head, hForm⟩ := exists_form_eq hTakes
  refine ⟨head, Keyed.collapse (Case.members e.cases), ?_, ?_, fun selector hSelector => ⟨?_, ?_⟩,
    fun hApart selector hSelector => ?_⟩
  · -- the form, its keys, and what stands under each of them
    rw [Node.compact_eq hRoom hFrames, hForm]
  · rw [Keyed.keys_collapse, Case.keys_members]
  · exact showsUnder_last hRoom hFrames hSelector
  · exact showsUnder_first_iff hRoom hFrames hSelector
  · -- the cases of a parsed tree have distinct selectors
    have hDistinct : (e.cases.map (·.selector)).Nodup := by
      rcases hApart with hDistinct | ⟨p, pattern, m, hParse, hContains⟩
      · exact hDistinct
      · exact Parser.nodup_selectors_of_parse hParse hContains
    exact showsUnder_first_of_nodup hRoom hFrames hSelector hDistinct

/-- What is left of a selector that a pattern repeats, written within the usual limit. -/
theorem compact_cases_of_parse :
    Parser.parse {} (.text "\x7bn,plural,one\x7ba\x7d other\x7bb\x7d one\x7bc\x7d\x7d") =
        .ok [.plural "n" .cardinal 0 [⟨"one", [.text "c"]⟩, ⟨"other", [.text "b"]⟩]] ∧
      (DepthGuard.ofLimit defaultWalkLimit).HasRoom ((Node.element (.plural "n" .cardinal 0
        [⟨"one", [.text "c"]⟩, ⟨"other", [.text "b"]⟩])).levels Node.takesLevel) ∧
      (Node.element (.plural "n" .cardinal 0
        [⟨"one", [.text "c"]⟩, ⟨"other", [.text "b"]⟩])).formFrames ≤ usualRoom ∧
      ∃ head members, (Node.element (.plural "n" .cardinal 0
          [⟨"one", [.text "c"]⟩, ⟨"other", [.text "b"]⟩])).compact
            (DepthGuard.ofLimit defaultWalkLimit) usualRoom =
              .ok (.arr (head ++ [.obj members])) ∧
        members.map (·.1) = ["one", "other"] ∧
        Json.ShowsUnder (DepthGuard.ofLimit defaultWalkLimit) usualRoom members "one"
          (some [.text "c"]) := by
  have hParse : Parser.parse {}
      (.text "\x7bn,plural,one\x7ba\x7d other\x7bb\x7d one\x7bc\x7d\x7d") =
        .ok [.plural "n" .cardinal 0 [⟨"one", [.text "c"]⟩, ⟨"other", [.text "b"]⟩]] := by
    decide +kernel
  have hRoom : (DepthGuard.ofLimit defaultWalkLimit).HasRoom ((Node.element (.plural "n" .cardinal 0
      [⟨"one", [.text "c"]⟩, ⟨"other", [.text "b"]⟩])).levels Node.takesLevel) := by
    decide +kernel
  have hFrames := Node.formFrames_le_usualRoom hRoom
  obtain ⟨head, members, hForm, hKeys, -, hLookup⟩ := compact_cases _ _ _ rfl hRoom hFrames
  refine ⟨hParse, hRoom, hFrames, head, members, hForm, hKeys, ?_⟩
  exact hLookup (.inr ⟨_, _, _, hParse, [0], rfl⟩) "one" (.head _)

/-- Two cases with the same selector. -/
def twice : List (Case Element) := [⟨"other", [.text "a"]⟩, ⟨"other", [.text "b"]⟩]

/-- A placeholder may be built with a selector that is repeated. Looking it up gives one message, and
the compact form shows another. -/
theorem compact_cases_ne_lookup :
    plural? "n" .cardinal (.integer 0) twice = .ok (.plural "n" .cardinal 0 twice) ∧
      Message.compact [.plural "n" .cardinal 0 twice] =
        .ok (.arr [.arr [.str "n", .str "plural", .int 0, .obj [("other", .arr [.str "b"])]]]) ∧
      Case.find? "other" twice = some [.text "a"] ∧
      Message.compact [.text "a"] = .ok (.arr [.str "a"]) ∧
      Json.arr [.str "a"] ≠ .arr [.str "b"] := by
  have hForm : (Node.message [.plural "n" .cardinal 0 twice]).form =
      .arr [.arr [.str "n", .str "plural", .int 0, .obj [("other", .arr [.str "b"])]]] := by
    simp [Node.form, twice, PluralKind.name, Keyed.collapse, Keyed.put]
  refine ⟨rfl, ?_, rfl, ?_, by simp⟩
  · rw [Message.compact, Node.compact_eq (by decide +kernel) (by decide +kernel), hForm]
  · rw [Message.compact, Node.compact_eq (by decide +kernel) (by decide +kernel)]
    simp [Node.form]

end Element

end MessagePattern
