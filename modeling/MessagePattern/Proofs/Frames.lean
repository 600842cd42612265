import MessagePattern.Proofs.Levels
import MessagePattern.Proofs.Walks

/-!
# The frames that a walk takes

A guard bounds the levels that a walk enters, and the stack bounds its frames. How many frames a level
takes depends on the visitor: two, with a handler three, and four if descents are noted. A limit that
was cut down at as many frames for a level keeps the walk from running out of them, and then the limit
alone tells what the walk sees. The limit of a guard is cut down at one frame for a level, so a tree
within it may still be too deep for the stack.

* `Visitor.refuses`, `Visitor.notes` — what a walk with frames enough is stopped at, and what it notes;
* `Visitor.visit_of_fits` — such a walk is told by the limit;
* `Visitor.TakesPerLevel` — a bound on the frames for a level, and what follows for a limit that was
  cut down with it;
* `Visitor.visitEach_reached` — the walks of several trees by one visitor;
* `Visitor.visit_nested_stackExhausted` — a tree within the limit that exhausts the stack.
-/

namespace MessagePattern

namespace Place

/-- The places up to the one that ends the walk are places of the walk. -/
theorem mem_of_mem_upTo {ends : Place → Bool} {places : List Place} {p : Place}
    (h : p ∈ upTo ends places) : p ∈ places := by
  induction places with
  | nil => exact h
  | cons q more ih =>
    rw [upTo] at h
    split at h
    · exact List.mem_cons.mpr (.inl (List.mem_singleton.mp h))
    · exact List.mem_cons.mpr ((List.mem_cons.mp h).imp_right ih)

/-- A walk does not come to what stands behind a place that ends it. -/
theorem not_mem_upTo_of_lt {ends : Place → Bool} {places : List Place}
    (hOrder : (places.map (·.path)).Pairwise (· < ·)) {p q : Place} (hEnds : ends q = true)
    (hPlace : q ∈ places) (hLess : q.path < p.path) : p ∉ upTo ends places := by
  induction places with
  | nil => simp at hPlace
  | cons first more ih =>
    rw [List.map_cons, List.pairwise_cons] at hOrder
    have hFirst : ∀ r ∈ more, first.path < r.path := fun r hMem =>
      hOrder.1 _ (List.mem_map_of_mem hMem)
    intro hMem
    rw [upTo] at hMem
    rcases List.mem_cons.mp hPlace with rfl | hMore
    · -- the walk ends with the first place, so the other one is that place too
      rw [if_pos hEnds] at hMem
      obtain rfl := List.mem_singleton.mp hMem
      exact List.lt_irrefl _ hLess
    · have hBehind : p ≠ first := by
        rintro rfl
        exact List.lt_irrefl _ (List.lt_trans hLess (hFirst q hMore))
      -- the walk may end with the first place, or the other place is among those after it
      split at hMem
      · exact hBehind (List.mem_singleton.mp hMem)
      · exact ih hOrder.2 hMore ((List.mem_cons.mp hMem).resolve_left hBehind)

/-- Where a walk could only be stopped for one reason, it ends at the first place at which it is. -/
theorem upTo_isSome {ending : Place → Option Interruption} {refused : Place → Bool}
    {why : Interruption} {places : List Place}
    (h : ∀ p ∈ upTo refused places, ending p = if refused p then some why else none) :
    upTo (fun p => (ending p).isSome) places = upTo refused places ∧
      places.findSome? ending = if places.any refused then some why else none := by
  induction places with
  | nil => exact ⟨rfl, rfl⟩
  | cons p more ih =>
    rw [upTo] at h
    -- the first place is refused, or the walk goes on to the others
    cases hRefused : refused p with
    | true =>
      have hEnding : ending p = some why := by simpa [hRefused] using h p (by simp [hRefused])
      simp [upTo, hRefused, hEnding]
    | false =>
      rw [hRefused, if_neg Bool.false_ne_true] at h
      -- the walk goes on, so nothing ends it here
      obtain ⟨hHere, hMore⟩ := List.forall_mem_cons.mp h
      have hEnding : ending p = none := by simpa [hRefused] using hHere
      obtain ⟨hUpTo, hFind⟩ := ih hMore
      simp [upTo, hRefused, hEnding, hUpTo, hFind]

end Place

namespace Visitor

/-! ## Walks with frames enough -/

/-- What is noted at a node that is seen at some depth: by its handler, if it has one, and as it is
descended into, if that is noted. -/
def notes (v : Visitor) (n : Node) (depth : Int) : List Sighting :=
  (if (v.handler n.kind).isSome then [⟨n, depth⟩] else []) ++
    if v.notesDescents && !v.stopsAt n then [⟨n, depth⟩] else []

/-- Whether a place is as far from the root as the limit and would have to be descended into. -/
def refuses (v : Visitor) (limit : Int) (p : Place) : Bool :=
  !v.stopsAt p.node && limit ≤ p.distance

variable (v : Visitor)

/-- A walk does not go beyond the limit. -/
theorem distance_le_of_mem_upTo {n : Node} {limit : Int} {p : Place}
    (h : p ∈ Place.upTo (v.refuses limit) (v.reached n)) : p.distance ≤ limit.toNat := by
  by_contra hFar
  -- the place above it that is as far from the root as the limit is refused before
  have hLength : (p.path.take limit.toNat).length = limit.toNat :=
    List.length_take_of_le (by unfold Place.distance at hFar; omega)
  have hProper : p.path.take limit.toNat ≠ p.path := by
    intro hSame
    rw [hSame] at hLength
    exact hFar (Nat.le_of_eq hLength)
  obtain ⟨above, hAbove, hGoesOn⟩ :=
    Node.exists_mem_visible_above (Place.mem_of_mem_upTo h) (List.take_prefix _ _) hProper
  have hRefused : v.refuses limit ⟨p.path.take limit.toNat, above⟩ = true := by
    rw [refuses, hGoesOn, Place.distance, hLength]
    simp
  have hLess := Node.path_lt_of_prefix (List.take_prefix _ _) hProper
  exact Place.not_mem_upTo_of_lt (Node.pairwise_lt_visible _ n) hRefused hAbove hLess h

/-- Whether there are frames enough for a walk of a tree within a limit. -/
def Fits (v : Visitor) (n : Node) (room : Nat) (limit : Int) : Prop :=
  ∀ p ∈ v.reached n, p.distance ≤ limit.toNat →
    v.framesTo n p.path + v.visitFrames p.node (v.refuses limit p) ≤ room

section
variable {v} {n : Node} {room : Nat} {limit : Int} {p : Place}

/-- A walk is stopped where it takes too many frames, or else where the level is refused. -/
theorem ending_eq (p : Place) :
    v.ending n room ⟨limit, 0⟩ p =
      if room < v.framesTo n p.path + v.visitFrames p.node (v.refuses limit p) then
        some .stackExhausted
      else if v.refuses limit p then some (.tooDeep ⟨limit⟩)
      else none := by
  have hRefused : (!v.stopsAt p.node && decide (limit ≤ 0 + (p.distance : Int))) =
      v.refuses limit p := by
    rw [Int.zero_add, refuses]
  have hPos := v.visitFrames_pos p.node (v.refuses limit p)
  -- the room that is left at the place is compared with what the visit there takes
  have hRoom : room - v.framesTo n p.path < v.visitFrames p.node (v.refuses limit p) ↔
      room < v.framesTo n p.path + v.visitFrames p.node (v.refuses limit p) := by omega
  rw [ending, endingAt]
  dsimp only
  rw [hRefused]
  simp only [hRoom]

/-- Where the frames suffice, a visit notes all that it notes. -/
theorem noted_eq_of_frames
    (hFrames : v.framesTo n p.path + v.visitFrames p.node (v.refuses limit p) ≤ room) :
    v.noted n room ⟨limit, 0⟩ p = v.notes p.node p.distance := by
  have hHandling : v.handlingFrames p.node.kind ≤ room - v.framesTo n p.path := by
    unfold visitFrames at hFrames
    split at hFrames <;> omega
  have hDescent : v.stopsAt p.node = false →
      v.descentFrames p.node.kind ≤ room - v.framesTo n p.path + 1 := by
    intro hGoesOn
    rw [visitFrames, hGoesOn, if_neg Bool.false_ne_true] at hFrames
    omega
  -- the handler is called, and the descent is noted if there is one
  rw [noted, notesAt, if_pos hHandling, Int.zero_add, notes]
  cases hStops : v.stopsAt p.node with
  | true => simp
  | false => simp [hDescent hStops]

/-- A walk with frames enough is stopped only at the limit. -/
theorem visit_of_fits (h : v.Fits n room limit) :
    v.visit n room ⟨limit, 0⟩ =
      { guard := ⟨limit, 0⟩
        sightings :=
          (Place.upTo (v.refuses limit) (v.reached n)).flatMap fun p => v.notes p.node p.distance
        result :=
          if (v.reached n).any (v.refuses limit) then .error (.tooDeep ⟨limit⟩) else .ok () } := by
  have hFrames : ∀ p ∈ Place.upTo (v.refuses limit) (v.reached n),
      v.framesTo n p.path + v.visitFrames p.node (v.refuses limit p) ≤ room := fun p hMem =>
    h p (Place.mem_of_mem_upTo hMem) (v.distance_le_of_mem_upTo hMem)
  -- with frames enough, the walk ends only at a place that the guard refuses
  obtain ⟨hUpTo, hFind⟩ := Place.upTo_isSome fun p hMem =>
    (ending_eq p).trans (if_neg (Nat.not_lt.mpr (hFrames p hMem)))
  have hNotes : (Place.upTo (v.refuses limit) (v.reached n)).flatMap (v.noted n room ⟨limit, 0⟩) =
      (Place.upTo (v.refuses limit) (v.reached n)).flatMap fun p => v.notes p.node p.distance :=
    List.flatMap_congr fun p hMem => noted_eq_of_frames (hFrames p hMem)
  rw [visit_eq_of_reached, hUpTo, hNotes, hFind]
  cases (v.reached n).any (v.refuses limit) <;> rfl

end

/-! ## Frames for a level -/

/-- So many frames are kept for a level at most, and a visit needs no more than those and the ones that
it takes to refuse a level. -/
structure TakesPerLevel (v : Visitor) (frames : Nat) : Prop where
  descent : ∀ kind, v.descentFrames kind ≤ frames
  handling : ∀ kind, v.handlingFrames kind ≤ frames + DepthGuard.refusalFrames

/-- A level takes the frames of a visit with a handler and of a descent, where handlers are modest. -/
theorem takesPerLevel (hNotes : ∀ kind, v.noteFrames kind ≤ 5) :
    v.TakesPerLevel (2 + v.descentCalls) where
  descent kind := Nat.add_le_add_right (v.visitCalls_le kind) _
  handling kind := by
    have hCalls := v.visitCalls_le kind
    have hNote := hNotes kind
    have hDescent : 1 ≤ v.descentCalls := by
      unfold descentCalls
      split <;> decide
    unfold handlingFrames DepthGuard.refusalFrames
    split <;> omega

/-- Without handlers a level takes two frames. -/
theorem takesPerLevel_plain : TakesPerLevel {} 2 where
  descent _ := Nat.le_refl 2
  handling _ := by
    show 1 ≤ 2 + DepthGuard.refusalFrames
    decide

section
variable {v} {frames : Nat} (h : v.TakesPerLevel frames)
include h

/-- A visit takes no more frames than a level, and those of a refusal. -/
theorem TakesPerLevel.visitFrames_le (n : Node) (refused : Bool) :
    v.visitFrames n refused ≤ frames + DepthGuard.refusalFrames := by
  have hHandling := h.handling n.kind
  have hDescent := h.descent n.kind
  have hLevel := n.levelFrames_le refused
  unfold visitFrames
  split <;> omega

/-- Down to a place there are no more frames than its levels take. -/
theorem TakesPerLevel.framesTo_le (n : Node) (path : List Nat) :
    v.framesTo n path ≤ frames * path.length := by
  induction path generalizing n with
  | nil => exact Nat.zero_le _
  | cons i path ih =>
    have hDescent := h.descent n.kind
    rw [framesTo, List.length_cons, Nat.mul_succ]
    split
    · have hBelow := ih (n := ‹Node›)
      omega
    · omega

/-- There are frames enough for as many levels as may be entered, and one visit more. -/
theorem TakesPerLevel.fits (n : Node) {room : Nat} {limit : Int}
    (hRoom : frames * limit.toNat + frames + DepthGuard.refusalFrames ≤ room) :
    v.Fits n room limit := by
  intro p _ hDistance
  have hAbove := h.framesTo_le n p.path
  have hVisit := h.visitFrames_le p.node (v.refuses limit p)
  have hLevels : frames * p.path.length ≤ frames * limit.toNat := Nat.mul_le_mul_left _ hDistance
  omega

end

end Visitor

/-! ## Limits that were cut down -/

/-- Levels that were granted take no more than the unreserved frames, at as many for each. -/
theorem clampDepth_mul_le (requested reserved : Int) {frames : Int} (hFrames : 0 < frames) :
    (clampDepth requested frames reserved).depth * frames ≤ stackFrames - reserved := by
  have hLevels : (stackFrames - reserved).fdiv frames * frames ≤ stackFrames - reserved := by
    rw [Int.fdiv_eq_ediv_of_nonneg _ (Int.le_of_lt hFrames)]
    exact Int.ediv_mul_le _ (Int.ne_of_gt hFrames)
  have hGranted : (clampDepth requested frames reserved).depth ≤
      (stackFrames - reserved).fdiv frames := by
    simp only [clampDepth]
    split
    · exact Int.le_refl _
    · exact Int.not_lt.mp ‹_›
  exact Int.le_trans (Int.mul_le_mul_of_nonneg_right hGranted (Int.le_of_lt hFrames)) hLevels

/-- **A limit that is cut down at the frames for a level fits the stack.** A walk within it is stopped
only at the limit, in a stack that keeps free for it the unreserved frames and those of one visit. -/
theorem Visitor.visit_of_clampDepth {v : Visitor} {frames : Nat} (h : v.TakesPerLevel frames)
    (hFrames : 0 < frames) (n : Node) (requested : Int) {room : Nat}
    (hRoom : usualRoom + frames + DepthGuard.refusalFrames ≤ room) :
    let limit := (clampDepth requested frames reservedFrames).depth
    (v.visit n room ⟨limit, 0⟩).result =
      if (v.reached n).any (v.refuses limit) then .error (.tooDeep ⟨limit⟩) else .ok () := by
  intro limit
  have hGranted : limit * frames ≤ usualRoom :=
    clampDepth_mul_le requested reservedFrames (by omega)
  -- a negative limit grants no levels at all
  have hLevels : frames * limit.toNat ≤ usualRoom := by
    rcases Int.le_total 0 limit with hPos | hNeg
    · have hCast : ((frames * limit.toNat : Nat) : Int) = limit * frames := by
        rw [Int.natCast_mul, Int.toNat_of_nonneg hPos, Int.mul_comm]
      omega
    · rw [Int.toNat_of_nonpos hNeg]
      exact Nat.zero_le _
  rw [visit_of_fits (h.fits n (by omega))]

namespace Visitor

/-! ## Walks that exhaust the stack -/

section
variable {v : Visitor} {n : Node} {room : Nat} {limit : Int}

/-- No place is as far from the root as there are levels, so none is refused at that limit. -/
theorem any_refuses_eq_false (v : Visitor) (h : (n.levels fun _ => true) ≤ limit) :
    (v.reached n).any (v.refuses limit) = false := by
  rw [List.any_eq_false]
  intro p hReached hRefused
  have hPlace : p ∈ n.places := Node.mem_places_iff.mpr (Node.mem_visible_iff.mp hReached).1
  have hDistance := Node.distance_lt_levels hPlace
  have hFar : limit ≤ p.distance := of_decide_eq_true (Bool.and_eq_true_iff.mp hRefused).2
  omega

/-- A walk that reaches a place at the limit is not finished. -/
theorem visit_ne_ok (h : (v.reached n).any (v.refuses limit) = true) :
    (v.visit n room ⟨limit, 0⟩).result ≠ .ok () := by
  obtain ⟨p, hReached, hRefused⟩ := List.any_eq_true.mp h
  have hEnds : (v.ending n room ⟨limit, 0⟩ p).isSome = true := by
    rw [ending_eq, hRefused]
    split <;> rfl
  rw [visit_eq_of_reached]
  cases hFind : (v.reached n).findSome? (v.ending n room ⟨limit, 0⟩) with
  | none => simp [List.findSome?_eq_none_iff.mp hFind p hReached] at hEnds
  | some why => simp

/-- A walk that is not stopped at the limit exhausts the stack if some place takes too many frames. -/
theorem visit_stackExhausted (hShallow : (v.reached n).any (v.refuses limit) = false) {p : Place}
    (hReached : p ∈ v.reached n)
    (hFrames : room < v.framesTo n p.path + v.visitFrames p.node false) :
    (v.visit n room ⟨limit, 0⟩).result = .error .stackExhausted := by
  -- the guard refuses nothing, so only the frames can end the walk
  have hEnding : ∀ q ∈ v.reached n, v.ending n room ⟨limit, 0⟩ q =
      if room < v.framesTo n q.path + v.visitFrames q.node false then some .stackExhausted
      else none := by
    intro q hMem
    have hGoesOn : v.refuses limit q = false := by
      simpa using List.any_eq_false.mp hShallow q hMem
    rw [ending_eq, hGoesOn, if_neg Bool.false_ne_true]
  rw [visit_eq_of_reached]
  -- the walk ends somewhere, since it cannot go on at this place
  cases hFind : (v.reached n).findSome? (v.ending n room ⟨limit, 0⟩) with
  | none =>
    have hNone := List.findSome?_eq_none_iff.mp hFind p hReached
    simp [hEnding p hReached, hFrames] at hNone
  | some why =>
    obtain ⟨q, hMem, hWhy⟩ := List.exists_of_findSome?_eq_some hFind
    rw [hEnding q hMem] at hWhy
    obtain rfl : .stackExhausted = why := by simpa using (Option.ite_none_right_eq_some.mp hWhy).2
    rfl

end

/-- Without handlers every place is reached. -/
theorem reached_plain (n : Node) : Visitor.reached {} n = n.places :=
  Node.visible_eq_places (fun _ hStops => absurd hStops Bool.false_ne_true) n

end Visitor

namespace Message

/-- Each time that a message is nested it comes to stand three levels further down. -/
theorem descendant?_nested (id selector : String) (nesting : Nat) (m : Message)
    (path : List Nat) :
    (Node.message (Message.nested id selector nesting m)).descendant?
        (List.replicate (3 * nesting) 0 ++ path) =
      (Node.message m).descendant? path := by
  induction nesting with
  | zero => rfl
  | succ nesting ih => exact ih

/-- Each nesting has three levels: the message, its placeholder and the case. -/
theorem levels_nested (id selector : String) (nesting : Nat) (m : Message) :
    ((Node.message (Message.nested id selector nesting m)).levels fun _ => true) =
      3 * nesting + (Node.message m).levels fun _ => true := by
  induction nesting with
  | zero => rw [nested, Nat.mul_zero, Nat.zero_add]
  | succ nesting ih =>
    have hOnly : ∀ {n child : Node}, n.children = [child] →
        (n.levels fun _ => true) = 1 + child.levels fun _ => true := by
      intro n child hChildren
      rw [Node.levels_eq, hChildren]
      simp
    rw [nested, hOnly rfl, hOnly rfl, hOnly rfl, ih]
    omega

/-- The innermost message has one level of its own. -/
theorem levels_nested_nil (id selector : String) (nesting : Nat) :
    ((Node.message (Message.nested id selector nesting [])).levels fun _ => true) =
      3 * nesting + 1 := by
  rw [levels_nested, Node.levels_eq]
  rfl

/-- The frames above a message that is nested are those of a message, a placeholder and a case each
time. -/
theorem framesTo_nested (v : Visitor) (id selector : String) (nesting : Nat) (m : Message)
    (path : List Nat) :
    v.framesTo (.message (Message.nested id selector nesting m))
        (List.replicate (3 * nesting) 0 ++ path) =
      nesting * (v.descentFrames .message + v.descentFrames .select + v.descentFrames .case) +
        v.framesTo (.message m) path := by
  induction nesting with
  | zero => rw [Nat.zero_mul, Nat.zero_add]; rfl
  | succ nesting ih =>
    -- down to the message that is nested, through the placeholder and its only case
    show v.descentFrames .message + (v.descentFrames .select + (v.descentFrames .case +
      v.framesTo (.message (Message.nested id selector nesting m))
        (List.replicate (3 * nesting) 0 ++ path))) = _
    rw [ih, Nat.succ_mul]
    omega

end Message

namespace Visitor

/-! ## Walks of several trees -/

/-- **What a walk sees.** Walks of several trees with one visitor that is at no level are walks of
each tree with a visitor of its own. The places that such a walk reaches are those of the tree with
no node above them at which it stops, in pre-order and once each. The first of them at which something
ends the walk is the last that it comes to, and every level is left again. Where there are frames enough
for as many levels as may be entered, and for one visit more, the walk notes the places one after
another, each at its distance from the root, and it gives back the tree unless one of them would have to
be descended into at the limit: that place is still noted, and nothing after it is. -/
theorem visitEach_reached (v : Visitor) (room : Nat) (limit : Int) (trees : List Node) :
    (v.visitEach room trees ⟨limit, 0⟩ = trees.map fun n => v.visit n room ⟨limit, 0⟩) ∧
    ∀ n, ((∀ p, p ∈ v.reached n ↔
          n.descendant? p.path = some p.node ∧ n.OpenTo v.stopsAt p.path) ∧
        ((v.reached n).map (·.path)).Pairwise (· < ·)) ∧
      ((v.visit n room ⟨limit, 0⟩).guard = ⟨limit, 0⟩ ∧
        (∀ p, v.ending n room ⟨limit, 0⟩ p =
          if room < v.framesTo n p.path + v.visitFrames p.node (v.refuses limit p) then
            some .stackExhausted
          else if v.refuses limit p then some (.tooDeep ⟨limit⟩)
          else none) ∧
        (v.visit n room ⟨limit, 0⟩).sightings =
          (Place.upTo (fun p => (v.ending n room ⟨limit, 0⟩ p).isSome) (v.reached n)).flatMap
            (v.noted n room ⟨limit, 0⟩) ∧
        (v.visit n room ⟨limit, 0⟩).returned n =
          match (v.reached n).findSome? (v.ending n room ⟨limit, 0⟩) with
          | some why => .error why
          | none => .ok n) ∧
      ∀ frames, v.TakesPerLevel frames →
        frames * limit.toNat + frames + DepthGuard.refusalFrames ≤ room →
        (v.visit n room ⟨limit, 0⟩).sightings =
          (Place.upTo (v.refuses limit) (v.reached n)).flatMap (fun p => v.notes p.node p.distance) ∧
        (v.visit n room ⟨limit, 0⟩).returned n =
          if (v.reached n).any (v.refuses limit) then .error (.tooDeep ⟨limit⟩) else .ok n := by
  refine ⟨?each, fun n => ⟨⟨fun p => Node.mem_visible_iff, Node.pairwise_lt_visible _ n⟩, ?any,
    fun frames hFrames hRoom => ?enough⟩⟩
  case each =>
    -- each walk hands on the guard that it was given
    induction trees with
    | nil => rfl
    | cons n more ih =>
      rw [visitEach, List.map_cons, ← ih, v.visit_eq_through n, Walk.guard_through]
  case any =>
    rw [Walk.returned, visit_eq_of_reached]
    refine ⟨rfl, fun p => ending_eq p, rfl, ?_⟩
    cases (v.reached n).findSome? (v.ending n room ⟨limit, 0⟩) <;> rfl
  case enough =>
    rw [Walk.returned, visit_of_fits (hFrames.fits n hRoom)]
    refine ⟨rfl, ?_⟩
    dsimp only
    split <;> rfl

/-- The visitor that takes note of texts. -/
def textVisitor : Visitor where
  handler
    | .text => some .descend
    | _ => none

/-- The first text would have to be descended into at the limit, so the second is not seen. -/
theorem visitEach_reached_of_texts :
    textVisitor.TakesPerLevel 3 ∧ 3 * (1 : Int).toNat + 3 + DepthGuard.refusalFrames ≤ 10 ∧
      (textVisitor.visit (.message [.text "a", .text "b"]) 10 ⟨1, 0⟩).sightings.map
        (fun s => (s.node.label, s.depth)) = [(.text "a", 1)] ∧
      (textVisitor.visit (.message [.text "a", .text "b"]) 10 ⟨1, 0⟩).returned
        (.message [.text "a", .text "b"]) = .error (.tooDeep ⟨1⟩) := by
  have hFrames : textVisitor.TakesPerLevel 3 := textVisitor.takesPerLevel fun _ => Nat.zero_le 5
  obtain ⟨hSeen, hBack⟩ :=
    ((visitEach_reached textVisitor 10 1 []).2 (.message [.text "a", .text "b"])).2.2 3 hFrames
      (by decide)
  refine ⟨hFrames, by decide, ?_, ?_⟩
  · rw [hSeen]
    decide +kernel
  · rw [hBack]
    exact if_pos (by decide +kernel)

/-- A message that nests 300 deep has 901 levels, and a visitor whose limit was cut down may enter 950.
But each takes two frames, so the walk exhausts the stack, though no place is as far from the root as
the limit. -/
theorem visit_nested_stackExhausted :
    (DepthGuard.ofLimit 950).limit = 950 ∧
      (Visitor.reached {} (.message (Message.nested "v" otherSelector 300 []))).any
        (Visitor.refuses {} 950) = false ∧
      (Visitor.visit {} (.message (Message.nested "v" otherSelector 300 [])) stackFrames.toNat
        (DepthGuard.ofLimit 950)).result = .error .stackExhausted := by
  -- the limit is above the levels of the tree
  have hShallow : (Visitor.reached {} (.message (Message.nested "v" otherSelector 300 []))).any
      (Visitor.refuses {} 950) = false :=
    any_refuses_eq_false _ (by rw [Message.levels_nested_nil]; decide)
  -- the innermost message, at which the frames no longer suffice
  have hInnermost : (⟨List.replicate (3 * 300) 0 ++ [], .message []⟩ : Place) ∈
      Visitor.reached {} (.message (Message.nested "v" otherSelector 300 [])) := by
    rw [reached_plain, Node.mem_places_iff, Message.descendant?_nested]
    rfl
  have hLimit : DepthGuard.ofLimit 950 = ⟨950, 0⟩ := by decide
  refine ⟨by decide, hShallow, ?_⟩
  rw [hLimit]
  refine visit_stackExhausted hShallow hInnermost ?_
  rw [Message.framesTo_nested]
  decide

end Visitor

end MessagePattern
