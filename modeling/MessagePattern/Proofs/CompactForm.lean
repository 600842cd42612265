import MessagePattern.Compact
import MessagePattern.Proofs.JsonText
import MessagePattern.Proofs.Keyed
import MessagePattern.Proofs.Levels
import MessagePattern.Proofs.Walks

/-!
# What the compact form keeps

Where nothing limits it, every tree has a compact form. A guard either has room for the levels of
all of it or refuses, and the stack has the frames that it takes or is exhausted. The frames go with
the levels, five for every two, so under the usual limit they do not run out. The form alone does
not tell every tree: an argument could be named like the pound sign, and cases with the same
selector are merged. In a message that a pattern stands for there is no such name and no such case,
so its compact form tells it, and so does the text of that.

* `Node.form`, `Node.formFrames` — the form without a limit, and the frames that it takes;
* `DepthGuard.Affords`, `Node.compact_affords` — when a form is given, and what else there is;
* `Node.two_mul_formFrames_le`, `Node.formFrames_le_usualRoom` — the frames against the levels;
* `Message.WellFormed.levels_takesLevel_le` — the levels that the form of a message takes;
* `Message.toldByForm_wellFormed` — no two well-formed messages have the same form;
* `Message.eq_of_compact_text_eq` — patterns and the texts of their compact forms.
-/

namespace MessagePattern

/-! ## The form without a limit -/

namespace Node

/-- The compact form of a node where nothing limits it. -/
def form : Node → Json
  | .message m => .arr (m.map fun e => form (.element e))
  | .case c => form (.message c.message)
  | .element (.text value) => .str value
  | .element .pound => .arr [.str "#"]
  | .element (.simple id) => .arr [.str id]
  | .element (.typed id type style) =>
    .arr (.str id :: .str type :: (style.map Json.str).toList)
  | .element (.plural id kind offset cases) =>
    .arr [.str id, .str kind.name, .int offset,
      .obj (Keyed.collapse (cases.map fun c => (c.selector, form (.case c))))]
  | .element (.select id type cases) =>
    .arr [.str id, .str type,
      .obj (Keyed.collapse (cases.map fun c => (c.selector, form (.case c))))]
termination_by n => sizeOf n
decreasing_by
  all_goals
    apply Node.sizeOf_lt_of_mem_children
    simp_all [Node.children]

/-- Whether the compact form of a node takes a level for the node itself. -/
def takesLevel (n : Node) : Bool := [Kind.message, .plural, .select].contains n.kind

end Node

/-! ## Levels and frames -/

/-- Whether a guard has so many levels left. None are needed where none are entered, even past
the limit. -/
def DepthGuard.HasRoom (g : DepthGuard) (levels : Nat) : Prop :=
  levels = 0 ∨ g.depth + levels ≤ g.limit

instance (g : DepthGuard) (levels : Nat) : Decidable (g.HasRoom levels) :=
  inferInstanceAs (Decidable (_ ∨ _))

namespace DepthGuard

variable {g : DepthGuard} {levels : Nat}

/-- Room for some levels is room for fewer. -/
theorem HasRoom.of_le {levels' : Nat} (h : g.HasRoom levels) (hFewer : levels' ≤ levels) :
    g.HasRoom levels' := by
  unfold HasRoom at h ⊢
  omega

/-- Room for the deeper of two is room for both. -/
theorem hasRoom_max_iff {levels' : Nat} :
    g.HasRoom (max levels levels') ↔ g.HasRoom levels ∧ g.HasRoom levels' := by
  unfold HasRoom
  omega

/-- There is room for one level more if it can be entered and there is room for the others then. -/
theorem hasRoom_succ_iff :
    g.HasRoom (1 + levels) ↔ g.depth < g.limit ∧ HasRoom ⟨g.limit, g.depth + 1⟩ levels := by
  unfold HasRoom
  dsimp only
  omega

end DepthGuard

/-- That an answer is right where so many levels and frames are needed for a value. It is the value if
there is room for the levels and the frames are there. It is refused as too deep only if there is no
room for the levels. It may be that the frames run out first; that takes two more if a level has to be
refused. -/
inductive DepthGuard.Affords {α : Type} (g : DepthGuard) (room levels frames : Nat) (value : α) :
    Except Interruption α → Prop
  | given : g.HasRoom levels → frames ≤ room → Affords g room levels frames value (.ok value)
  | tooDeep : ¬g.HasRoom levels →
    Affords g room levels frames value (.error (.tooDeep ⟨g.limit⟩))
  | exhausted : (g.HasRoom levels → room < frames) → room < frames + 2 →
    Affords g room levels frames value (.error .stackExhausted)

namespace DepthGuard.Affords

variable {α β : Type} {g : DepthGuard} {room levels frames : Nat} {value : α}

/-- Where there are levels and frames enough there is the value. -/
theorem eq_ok {answer : Except Interruption α} (h : g.Affords room levels frames value answer)
    (hRoom : g.HasRoom levels) (hFrames : frames ≤ room) : answer = .ok value := by
  cases h with
  | given => rfl
  | tooDeep hNone => exact absurd hRoom hNone
  | exhausted hRuns => exact absurd (hRuns hRoom) (Nat.not_lt.mpr hFrames)

/-- Where there are levels enough nothing is too deep. -/
theorem ne_tooDeep {answer : Except Interruption α}
    (h : g.Affords room levels frames value answer) (hRoom : g.HasRoom levels)
    (e : DepthExceeded) : answer ≠ .error (.tooDeep e) := by
  cases h with
  | given => simp
  | tooDeep hNone => exact absurd hRoom hNone
  | exhausted => simp

/-- What stops one part of a task stops the task, if that needs no fewer levels and leaves no more
frames unused. -/
theorem error {g' : DepthGuard} {room' levels' frames' : Nat} {value' : β} {why : Interruption}
    (h : g.Affords room levels frames value (.error why)) (hLimit : g.limit = g'.limit)
    (hRoom : g'.HasRoom levels' → g.HasRoom levels) (hFrames : frames + room' ≤ frames' + room) :
    g'.Affords room' levels' frames' value' (.error why) := by
  cases h with
  | tooDeep hNone =>
    rw [hLimit]
    exact .tooDeep (mt hRoom hNone)
  | exhausted hRuns hShort =>
    refine .exhausted (fun hHas => ?_) (by omega)
    have hRunsOut := hRuns (hRoom hHas)
    omega

/-- What is made of a value needs no more than the value. -/
theorem map {answer : Except Interruption α} (h : g.Affords room levels frames value answer)
    (f : α → β) : g.Affords room levels frames (f value) (f <$> answer) := by
  cases h with
  | given hRoom hFrames => exact .given hRoom hFrames
  | tooDeep hNone => exact .tooDeep hNone
  | exhausted hRuns hShort => exact .exhausted hRuns hShort

/-- Calls take their frames on top of those of what they do. -/
theorem inCalls {calls : Nat} {body : Nat → Except Interruption α}
    (h : ∀ room, g.Affords room levels frames value (body room)) :
    g.Affords room levels (calls + frames) value (inCalls calls room body) := by
  have hBody := h (room - calls)
  unfold MessagePattern.inCalls
  -- the calls are there, and so is the room for the body, or they run out at once
  by_cases hCalls : calls ≤ room
  · rw [if_pos hCalls]
    cases hAnswer : body (room - calls) with
    | error why =>
      rw [hAnswer] at hBody
      exact hBody.error rfl id (by omega)
    | ok answer =>
      -- the body has answered, so its room and its frames were there
      rw [hAnswer] at hBody
      cases hBody with
      | given hRoom hFrames => exact .given hRoom (by omega)
  · rw [if_neg hCalls]
    exact .exhausted (fun _ => by omega) (by omega)

/-- Answers that are asked for one after another are all there if the most levels and the most frames
that one of them needs are. -/
theorem mapM {f : α → Except Interruption β} {value : α → β} {levels frames : α → Nat} {l : List α}
    (h : ∀ a ∈ l, g.Affords room (levels a) (frames a) (value a) (f a)) :
    g.Affords room ((l.map levels).foldr max 0) ((l.map frames).foldr max 0) (l.map value)
      (l.mapM f) := by
  induction l with
  -- no answers take no levels and no frames
  | nil => exact .given (.inl rfl) (Nat.zero_le _)
  | cons a l ih =>
    obtain ⟨hHere, hMore⟩ := List.forall_mem_cons.mp h
    have hRest := ih hMore
    rw [List.mapM_cons, List.map_cons, List.map_cons, List.map_cons, List.foldr_cons,
      List.foldr_cons]
    -- the first answer is wanting, or the first of the others is, or all are given
    cases hAnswer : f a with
    | error why =>
      rw [hAnswer] at hHere
      exact hHere.error rfl (fun hBoth => (hasRoom_max_iff.mp hBoth).1) (by omega)
    | ok answer =>
      rw [hAnswer] at hHere
      cases hHere with
      | given hRoom hFrames =>
        cases hAnswers : l.mapM f with
        | error why =>
          rw [hAnswers] at hRest
          exact hRest.error rfl (fun hBoth => (hasRoom_max_iff.mp hBoth).2) (by omega)
        | ok answers =>
          rw [hAnswers] at hRest
          cases hRest with
          | given hRoomRest hFramesRest =>
            exact .given (hasRoom_max_iff.mpr ⟨hRoom, hRoomRest⟩)
              (Nat.max_le.mpr ⟨hFrames, hFramesRest⟩)

/-- What is asked for in a level needs that level and the frames for entering it. -/
theorem enter {body : DepthGuard → Except Interruption α}
    (h : Affords ⟨g.limit, g.depth + 1⟩ room levels frames value
      (body ⟨g.limit, g.depth + 1⟩)) :
    g.Affords room (1 + levels) (max entryFrames frames) value (g.enterWithin room >>= body) := by
  rw [enterWithin_eq]
  by_cases hFull : g.limit ≤ g.depth
  · have hNone : ¬g.HasRoom (1 + levels) := fun hRoom =>
      absurd (hasRoom_succ_iff.mp hRoom).1 (Int.not_lt.mpr hFull)
    rw [if_pos hFull]
    -- no level is left, and the refusal takes two frames more than an entry
    by_cases hRefuse : refusalFrames ≤ room
    · rw [if_pos hRefuse]
      exact .tooDeep hNone
    · rw [if_neg hRefuse]
      unfold refusalFrames at hRefuse
      unfold entryFrames
      exact .exhausted (fun hRoom => absurd hRoom hNone) (by omega)
  · -- the level is entered, and what it needs is needed below it
    rw [if_neg hFull]
    by_cases hEnter : entryFrames ≤ room
    · rw [if_pos hEnter]
      show g.Affords room (1 + levels) (max entryFrames frames) value
        (body ⟨g.limit, g.depth + 1⟩)
      cases hAnswer : body ⟨g.limit, g.depth + 1⟩ with
      | error why =>
        rw [hAnswer] at h
        exact h.error rfl (fun hRoom => (hasRoom_succ_iff.mp hRoom).2) (by omega)
      | ok answer =>
        rw [hAnswer] at h
        cases h with
        | given hRoom hFrames =>
          exact .given (hasRoom_succ_iff.mpr ⟨Int.not_le.mp hFull, hRoom⟩)
            (Nat.max_le.mpr ⟨hEnter, hFrames⟩)
    · rw [if_neg hEnter]
      exact .exhausted (fun _ => by omega) (by omega)

/-- Answers that are asked for in a level, one after another. -/
theorem enter_mapM {f : DepthGuard → α → Except Interruption β} {value : α → β}
    {levels frames : α → Nat} {l : List α}
    (h : ∀ g, ∀ a ∈ l, Affords g room (levels a) (frames a) (value a) (f g a)) :
    g.Affords room (1 + (l.map levels).foldr max 0)
      (max entryFrames ((l.map frames).foldr max 0)) (l.map value)
      (g.enterWithin room >>= fun inner => l.mapM (f inner)) :=
  enter (mapM (h _))

end DepthGuard.Affords

namespace Node

/-- A case takes no level of its own. -/
theorem levels_case (c : Case Element) :
    (case c).levels takesLevel = (message c.message).levels takesLevel := by
  rw [levels_eq]
  exact (Nat.zero_add _).trans (Nat.max_zero _)

/-- A case has the form of its message. -/
theorem form_case (c : Case Element) : (case c).form = (message c.message).form := by
  conv => lhs; rw [form]

/-- The frames that the compact form of a node takes. -/
def formFrames (n : Node) : Nat :=
  match n with
  | .message m =>
    2 + max DepthGuard.entryFrames ((m.map fun e => formFrames (.element e)).foldr max 0)
  | .case c => 2 + formFrames (.message c.message)
  | .element (.plural _ _ _ cases) | .element (.select _ _ cases) =>
    2 + (1 + max DepthGuard.entryFrames
      ((cases.map fun c => formFrames (.message c.message)).foldr max 0))
  | .element _ => 2
termination_by sizeOf n
decreasing_by
  · exact sizeOf_lt_of_mem_children (List.mem_map_of_mem ‹_›)
  · exact sizeOf_lt_of_mem_children (List.mem_singleton_self _)
  all_goals exact sizeOf_message_lt_of_mem (List.mem_map_of_mem ‹_›)

/-- What takes a level has one more than the most that a child has. -/
theorem levels_takesLevel {n : Node} (hTakes : n.takesLevel = true) {α : Type} {l : List α}
    {node : α → Node} (hChildren : n.children = l.map node) :
    n.levels takesLevel = 1 + (l.map fun a => (node a).levels takesLevel).foldr max 0 := by
  rw [levels_eq, hTakes, if_pos rfl, hChildren, List.map_map]
  rfl

/-- The members that the cases of a placeholder become take a call and a level. -/
theorem members_afford {cases : List (Case Element)}
    (h : ∀ c ∈ cases, ∀ (g : DepthGuard) (room : Nat),
      g.Affords room ((message c.message).levels takesLevel) (message c.message).formFrames
        (message c.message).form ((message c.message).compact g room))
    (g : DepthGuard) (room : Nat) :
    g.Affords room (1 + (cases.map fun c => (case c).levels takesLevel).foldr max 0)
      (1 + max DepthGuard.entryFrames
        ((cases.map fun c => (message c.message).formFrames).foldr max 0))
      (cases.map fun c => (c.selector, (case c).form))
      (inCalls 1 room fun room => do
        let inner ← g.enterWithin room
        cases.mapM fun c => return (c.selector, ← (message c.message).compact inner room)) := by
  refine .inCalls fun room => .enter_mapM fun g c hCase => ?_
  rw [levels_case, form_case]
  exact (h c hCase g room).map (Prod.mk c.selector)

/-- The compact form of a node is there if there is room for its levels and for its frames. -/
theorem compact_affords (g : DepthGuard) (room : Nat) (n : Node) :
    g.Affords room (n.levels takesLevel) n.formFrames n.form (n.compact g room) := by
  -- by the kind of node; only messages and placeholders with cases take a level
  match n with
  | .message m =>
    -- the frame of the call, the level that is entered, and then each of the elements
    rw [levels_takesLevel (n := message m) rfl rfl, formFrames, form, compact]
    refine .inCalls fun room => ?_
    have hItems := (DepthGuard.Affords.enter_mapM (g := g) fun g e (hMem : e ∈ m) =>
      compact_affords g room (.element e)).map Json.arr
    simpa only [map_bind, bind_pure_comp] using hItems
  | .case c =>
    rw [levels_case, formFrames, form, compact]
    exact .inCalls fun room => compact_affords g room (.message c.message)
  | .element (.plural id kind offset cases) =>
    rw [levels_takesLevel (n := element (.plural id kind offset cases)) rfl rfl, formFrames, form,
      compact]
    refine .inCalls fun room => ?_
    have hMembers := members_afford (fun c (hMem : c ∈ cases) g room =>
      compact_affords g room (.message c.message)) g room
    simpa only [bind_pure_comp] using hMembers.map fun members =>
      Json.arr [.str id, .str kind.name, .int offset, .obj (Keyed.collapse members)]
  | .element (.select id type cases) =>
    rw [levels_takesLevel (n := element (.select id type cases)) rfl rfl, formFrames, form, compact]
    refine .inCalls fun room => ?_
    have hMembers := members_afford (fun c (hMem : c ∈ cases) g room =>
      compact_affords g room (.message c.message)) g room
    simpa only [bind_pure_comp] using hMembers.map fun members =>
      Json.arr [.str id, .str type, .obj (Keyed.collapse members)]
  | .element (.text _) | .element .pound | .element (.simple _)
  | .element (.typed _ _ none) | .element (.typed _ _ (some _)) =>
    -- without children there is no level to enter, whatever the limit
    rw [levels_eq, formFrames, form, compact]
    · exact .inCalls fun room => .given (.inl rfl) (Nat.zero_le _)
    all_goals simp
termination_by sizeOf n
decreasing_by
  · exact sizeOf_lt_of_mem_children (List.mem_map_of_mem ‹_›)
  · exact sizeOf_lt_of_mem_children (List.mem_singleton_self _)
  all_goals exact sizeOf_message_lt_of_mem (List.mem_map_of_mem ‹_›)

/-- The compact form is there where the guard has room for its levels and the stack for its frames. -/
theorem compact_eq {g : DepthGuard} {room : Nat} {n : Node}
    (hRoom : g.HasRoom (n.levels takesLevel)) (hFrames : n.formFrames ≤ room) :
    n.compact g room = .ok n.form :=
  (compact_affords g room n).eq_ok hRoom hFrames

/-! ## Five frames for two levels -/

/-- A bound that holds of each holds of the greatest. -/
theorem two_mul_foldr_max_le {α : Type} {frames levels : α → Nat} {excess : Nat} {l : List α}
    (h : ∀ a ∈ l, 2 * frames a ≤ 5 * levels a + excess) :
    2 * (l.map frames).foldr max 0 ≤ 5 * (l.map levels).foldr max 0 + excess := by
  induction l with
  | nil => exact Nat.zero_le _
  | cons a l ih =>
    obtain ⟨hHere, hMore⟩ := List.forall_mem_cons.mp h
    have hRest := ih hMore
    rw [List.map_cons, List.map_cons, List.foldr_cons, List.foldr_cons]
    omega

/-- By how much the frames of a compact form are more than five for every two levels, twice over. -/
def formExcess : Kind → Nat
  | .message => 4
  | .case => 8
  | _ => 5

/-- The members that the cases of a placeholder become take five frames for every two levels if the
messages do. -/
theorem two_mul_memberFrames_le {cases : List (Case Element)}
    (h : ∀ c ∈ cases, 2 * (message c.message).formFrames ≤
      5 * (message c.message).levels takesLevel + 4) :
    2 * (2 + (1 + max DepthGuard.entryFrames
        ((cases.map fun c => (message c.message).formFrames).foldr max 0))) ≤
      5 * (1 + (cases.map fun c => (case c).levels takesLevel).foldr max 0) + 5 := by
  have hMost : 2 * (cases.map fun c => (message c.message).formFrames).foldr max 0 ≤
      5 * (cases.map fun c => (case c).levels takesLevel).foldr max 0 + 4 :=
    two_mul_foldr_max_le fun c hMem => (h c hMem).trans_eq (by rw [levels_case])
  unfold DepthGuard.entryFrames
  omega

/-- The compact form takes five frames for every two levels. -/
theorem two_mul_formFrames_le (n : Node) :
    2 * n.formFrames ≤ 5 * n.levels takesLevel + formExcess n.kind := by
  match n with
  | .message m =>
    -- twice the frames of an element are at most five more than its levels account for
    have hItem : ∀ e ∈ m, 2 * (element e).formFrames ≤ 5 * (element e).levels takesLevel + 5 := by
      intro e hMem
      have hElement : formExcess (element e).kind = 5 := by cases e <;> rfl
      exact hElement ▸ two_mul_formFrames_le (.element e)
    have hMost := two_mul_foldr_max_le hItem
    rw [levels_takesLevel (n := message m) rfl rfl, formFrames]
    unfold DepthGuard.entryFrames
    show _ ≤ _ + 4
    omega
  | .case c =>
    -- a case takes two frames more than its message
    have hBody : 2 * (message c.message).formFrames ≤
        5 * (message c.message).levels takesLevel + 4 := two_mul_formFrames_le (.message c.message)
    rw [levels_case, formFrames]
    show _ ≤ _ + 8
    omega
  | .element (.plural id kind offset cases) =>
    rw [levels_takesLevel (n := element (.plural id kind offset cases)) rfl rfl, formFrames]
    exact two_mul_memberFrames_le fun c hMem => two_mul_formFrames_le (.message c.message)
  | .element (.select id type cases) =>
    rw [levels_takesLevel (n := element (.select id type cases)) rfl rfl, formFrames]
    exact two_mul_memberFrames_le fun c hMem => two_mul_formFrames_le (.message c.message)
  | .element (.text _) | .element .pound | .element (.simple _) | .element (.typed _ _ _) =>
    rw [formFrames]
    · exact Nat.le_trans (by decide : 2 * 2 ≤ 5) (Nat.le_add_left _ _)
    all_goals simp
termination_by sizeOf n
decreasing_by
  · exact sizeOf_lt_of_mem_children (List.mem_map_of_mem ‹_›)
  · exact sizeOf_lt_of_mem_children (List.mem_singleton_self _)
  all_goals exact sizeOf_message_lt_of_mem (List.mem_map_of_mem ‹_›)

/-- Within the usual limit the frames are always there. -/
theorem formFrames_le_usualRoom {n : Node}
    (h : (DepthGuard.ofLimit defaultWalkLimit).HasRoom (n.levels takesLevel)) :
    n.formFrames ≤ usualRoom := by
  -- the usual limit is 302 levels
  have hLevels : n.levels takesLevel ≤ 302 := by
    rcases h with hNone | hSome
    · omega
    · have hLimit : (DepthGuard.ofLimit defaultWalkLimit).limit = 302 := by decide
      have hDepth : (DepthGuard.ofLimit defaultWalkLimit).depth = 0 := by decide
      omega
  have hFrames := n.two_mul_formFrames_le
  have hExcess : formExcess n.kind ≤ 8 := by cases n.kind <;> decide
  have hRoom : usualRoom = 950 := by decide
  omega

end Node

/-! ## Well-formed messages -/

/-- A well-formed element that takes a level has a case. -/
theorem Element.WellFormed.children_ne_nil {inBraces : Bool → Message → Prop} {b : Bool}
    {e : Element} (h : e.WellFormed inBraces b) (hTakes : (Node.element e).takesLevel = true) :
    (Node.element e).children ≠ [] := by
  cases e with
  | plural id kind offset cases =>
    obtain ⟨c, hCase, -⟩ := List.mem_map.mp h.2.2.1
    exact List.ne_nil_of_mem (List.mem_map_of_mem hCase)
  | select id type cases => exact fun hNone => h.2.2.2.2.1 (List.map_eq_nil_iff.mp hNone)
  | _ => exact absurd hTakes Bool.false_ne_true

/-- The compact form of a message takes two levels for each level of nesting, and one more. -/
theorem Message.WellFormed.levels_takesLevel_le {nesting : Nat} {b : Bool} {m : Message}
    (h : m.WellFormed nesting b) :
    (Node.message m).levels Node.takesLevel ≤ 2 * nesting + 1 := by
  -- by induction on the nesting; of what stands in braces the case takes no level
  induction nesting generalizing b m with
  | zero =>
    refine Node.levels_le_succ fun node hNode => ?_
    obtain ⟨e, hElement, rfl⟩ := List.mem_map.mp hNode
    have hWell := h.element e hElement
    -- what would take a level has a case, and there is no room for one
    have hNoCase : ∀ child, child ∉ (Node.element e).children := by
      intro child hChild
      obtain ⟨c, b', -, hNone⟩ := hWell.exists_case hChild
      exact hNone
    refine Node.levels_le_of_not_counts ?_ fun child hChild => absurd hChild (hNoCase child)
    rw [← Bool.not_eq_true]
    intro hTakes
    exact hWell.children_ne_nil hTakes (List.eq_nil_iff_forall_not_mem.mpr hNoCase)
  | succ nesting ih =>
    refine Node.levels_le_succ fun node hNode => Node.levels_le_succ fun child hChild => ?_
    obtain ⟨e, hElement, rfl⟩ := List.mem_map.mp hNode
    obtain ⟨c, b', rfl, hMessage⟩ := (h.element e hElement).exists_case hChild
    rw [Node.levels_case]
    exact ih hMessage

/-! ## What the form tells -/

/-- Lists with the same images are the same if elements with the same image are. -/
theorem eq_of_map_eq_map {α β : Type} {f : α → β} {l l' : List α}
    (h : ∀ a ∈ l, ∀ a' ∈ l', f a = f a' → a = a') (hSame : l.map f = l'.map f) : l = l' := by
  induction l generalizing l' with
  | nil => exact (List.map_eq_nil_iff.mp hSame.symm).symm
  | cons a l ih =>
    cases l' with
    | nil => simp at hSame
    | cons a' l' =>
      obtain ⟨hHere, hMore⟩ := List.cons.inj hSame
      rw [h a (by simp) a' (by simp) hHere,
        ih (fun b hb b' hb' => h b (by simp [hb]) b' (by simp [hb'])) hMore]

/-- A pound sign is no word. -/
theorem IsWord.ne_pound {word : String} (h : IsWord word) : word ≠ "#" := by
  rintro rfl
  exact absurd h (by decide)

/-- The two plural kinds differ in their names. -/
theorem PluralKind.name_inj {kind kind' : PluralKind} (h : kind.name = kind'.name) :
    kind = kind' := by
  have hName := PluralKind.ofName?_eq_some_iff.mpr h
  rw [PluralKind.ofName?_eq_some_iff.mpr rfl] at hName
  exact Option.some.inj hName

/-- Among messages of some sort, no two have the same compact form. -/
def Message.ToldByForm (sort : Message → Prop) : Prop :=
  ∀ m m', sort m → sort m' → (Node.message m).form = (Node.message m').form → m = m'

/-- Cases with distinct selectors are told by the members that they become. -/
theorem Case.eq_of_members_eq {inBraces : Message → Prop} (hBody : Message.ToldByForm inBraces)
    {cases cases' : List (Case Element)} (h : Case.AllWellFormed inBraces cases)
    (h' : Case.AllWellFormed inBraces cases')
    (hSame : Keyed.collapse (cases.map fun c => (c.selector, (Node.case c).form)) =
      Keyed.collapse (cases'.map fun c => (c.selector, (Node.case c).form))) :
    cases = cases' := by
  -- distinct selectors are not merged, so there is a member for each case
  have hNodup : ∀ {cases : List (Case Element)}, (cases.map (·.selector)).Nodup →
      ((cases.map fun c => (c.selector, (Node.case c).form)).map (·.1)).Nodup := by
    intro cases hDistinct
    rwa [List.map_map]
  rw [Keyed.collapse_of_nodup (hNodup h.distinct), Keyed.collapse_of_nodup (hNodup h'.distinct)]
    at hSame
  refine eq_of_map_eq_map (fun c hCase c' hCase' hMember => ?_) hSame
  obtain ⟨hSelector, hForm⟩ := Prod.mk.inj hMember
  rw [Node.form_case, Node.form_case] at hForm
  -- the members are in the order of the cases, each with its selector and its form
  have hMessage := hBody _ _ (h.inBraces c hCase) (h'.inBraces c' hCase') hForm
  cases c
  cases c'
  exact congrArg₂ Case.mk hSelector hMessage

section
variable {inBraces : Bool → Message → Prop} {b : Bool}
  (hBody : ∀ b, Message.ToldByForm (inBraces b))
include hBody

/-- Two well-formed elements with the same form are the same, if messages in braces are told by
their forms. A text is the only one that is no array. The arrays differ in how many items they have,
or in the kind of the last one, apart from a pound sign and an argument with that name; and that
name is no word. -/
theorem Element.eq_of_form_eq {e e' : Element} (h : e.WellFormed inBraces b)
    (h' : e'.WellFormed inBraces b) (hSame : (Node.element e).form = (Node.element e').form) :
    e = e' := by
  -- the items of an array, and of what kind they are, tell which element it stands for
  cases e with
  | text value =>
    cases e' with
    | text value' => simpa [Node.form] using hSame
    | _ => simp [Node.form] at hSame
  | pound =>
    cases e' with
    | pound => rfl
    -- an argument that is named like the pound sign has its form, but no such name is a word
    | simple id' => exact absurd (by simpa [Node.form] using hSame.symm) h'.ne_pound
    | _ => simp [Node.form] at hSame
  | simple id =>
    cases e' with
    | pound => exact absurd (by simpa [Node.form] using hSame) h.ne_pound
    | simple id' => simpa [Node.form] using hSame
    | _ => simp [Node.form] at hSame
  | typed id type style =>
    cases e' with
    | typed id' type' style' =>
      rw [Node.form, Node.form] at hSame
      simp only [Json.arr.injEq, List.cons.injEq, Json.str.injEq] at hSame
      obtain ⟨rfl, rfl, hStyle⟩ := hSame
      -- a style is a third item, so its absence shows
      have hSameStyle : style = style' := by
        cases style <;> cases style' <;> simp_all
      rw [hSameStyle]
    | _ => cases style <;> simp [Node.form] at hSame
  | plural id kind offset cases =>
    cases e' with
    | plural id' kind' offset' cases' =>
      rw [Node.form, Node.form] at hSame
      simp only [Json.arr.injEq, List.cons.injEq, Json.str.injEq, Json.int.injEq, Json.obj.injEq,
        and_true, Int.natCast_inj] at hSame
      obtain ⟨rfl, hKind, rfl, hMembers⟩ := hSame
      -- the name, the kind and the offset are read off, and the members tell the cases
      obtain rfl := PluralKind.name_inj hKind
      obtain rfl := Case.eq_of_members_eq (hBody true) h.2.2.2 h'.2.2.2 hMembers
      rfl
    | typed id' type' style' => cases style' <;> simp [Node.form] at hSame
    | _ => simp [Node.form] at hSame
  | select id type cases =>
    cases e' with
    | select id' type' cases' =>
      rw [Node.form, Node.form] at hSame
      simp only [Json.arr.injEq, List.cons.injEq, Json.str.injEq, Json.obj.injEq, and_true]
        at hSame
      obtain ⟨rfl, rfl, hMembers⟩ := hSame
      obtain rfl := Case.eq_of_members_eq (hBody false) h.2.2.2.2.2.2 h'.2.2.2.2.2.2 hMembers
      rfl
    | typed id' type' style' => cases style' <;> simp [Node.form] at hSame
    | _ => simp [Node.form] at hSame

/-- A message is told by its form if the messages in its cases are. -/
theorem Message.toldByForm_wellFormedOver :
    Message.ToldByForm (Message.WellFormedOver inBraces b) := by
  intro m m' h h' hSame
  rw [Node.form, Node.form, Json.arr.injEq] at hSame
  exact eq_of_map_eq_map (fun e hElement e' hElement' =>
    Element.eq_of_form_eq hBody (h.element e hElement) (h'.element e' hElement')) hSame

end

/-- No two well-formed messages have the same compact form. -/
theorem Message.toldByForm_wellFormed (nesting : Nat) (b : Bool) :
    Message.ToldByForm (Message.WellFormed nesting b) := by
  -- by induction on the nesting, one level of cases after another
  induction nesting generalizing b with
  | zero => exact toldByForm_wellFormedOver fun _ _ _ hNone => hNone.elim
  | succ nesting ih => exact toldByForm_wellFormedOver ih

-- No pattern has an argument of this name, or its form would not be told from the pound sign.
example : (Node.element (.simple "#")).form = (Node.element .pound).form := by cbv

/-! ## The compact forms of patterns -/

namespace Message

/-- A guard has room for the form of a well-formed message if there are two levels for each level of
nesting, and one more. -/
theorem WellFormed.hasRoom {nesting : Nat} {b : Bool} {m : Message} (h : m.WellFormed nesting b)
    {g : DepthGuard} (hLimit : g.depth + (2 * nesting + 1) ≤ g.limit) :
    g.HasRoom ((Node.message m).levels Node.takesLevel) := by
  have hLevels := h.levels_takesLevel_le
  exact .inr (by omega)

/-- The form of a well-formed message takes five frames for each level of nesting, and four more. -/
theorem WellFormed.formFrames_le {nesting : Nat} {b : Bool} {m : Message}
    (h : m.WellFormed nesting b) : (Node.message m).formFrames ≤ 5 * nesting + 4 := by
  have hLevels := h.levels_takesLevel_le
  have hFrames : 2 * (Node.message m).formFrames ≤
      5 * (Node.message m).levels Node.takesLevel + 4 := Node.two_mul_formFrames_le _
  omega

/-- The compact form of what is parsed is not limited. -/
theorem compact_of_parse {value : PatternValue} {m : Message}
    (h : MessagePattern.parse value = .ok m) : m.compact = .ok (Node.message m).form := by
  have hWell := (Parser.derives_of_parse h).wellFormed
  exact Node.compact_eq (hWell.hasRoom (by decide)) (hWell.formFrames_le.trans (by decide))

/-- **The compact form loses nothing.** Messages that patterns parse to have compact forms, and
those with the same JSON text are the same. -/
theorem eq_of_compact_text_eq {value value' : PatternValue} {m m' : Message}
    (h : MessagePattern.parse value = .ok m) (h' : MessagePattern.parse value' = .ok m') :
    ∃ form form', m.compact = .ok form ∧ m'.compact = .ok form' ∧
      (form.text = form'.text → m = m') := by
  refine ⟨_, _, compact_of_parse h, compact_of_parse h', fun hText => ?_⟩
  exact toldByForm_wellFormed _ _ _ _ (Parser.derives_of_parse h).wellFormed
    (Parser.derives_of_parse h').wellFormed (Json.text_injective hText)

/-- A placeholder, and a text that reads like the text of its compact form. -/
theorem eq_of_compact_text_eq_of_bracketed :
    MessagePattern.parse (.text "\x7bx\x7d") = .ok [.simple "x"] ∧
      MessagePattern.parse (.text "[\"x\"]") = .ok [.text "[\"x\"]"] ∧
      ∃ form form', Message.compact [.simple "x"] = .ok form ∧
        Message.compact [.text "[\"x\"]"] = .ok form' ∧ form.text ≠ form'.text := by
  have hPlaceholder : MessagePattern.parse (.text "\x7bx\x7d") = .ok [.simple "x"] := by
    decide +kernel
  have hText : MessagePattern.parse (.text "[\"x\"]") = .ok [.text "[\"x\"]"] := by
    decide +kernel
  obtain ⟨form, form', hForm, hForm', hTold⟩ := eq_of_compact_text_eq hPlaceholder hText
  exact ⟨hPlaceholder, hText, form, form', hForm, hForm', fun hSame =>
    absurd (hTold hSame) (by simp)⟩

end Message

end MessagePattern
