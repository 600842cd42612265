import MessagePattern.Proofs.Places
import MessagePattern.Walk

/-!
# What a walk sees

A walk goes through the places of a tree one after another, as if they stood in a list: those
with no node above them at which it stops, in pre-order. The first of them that ends it is the last:
one that would have to be descended into at the limit, or one for which there are not enough frames.
The levels that were entered are left again either way.

How many frames are left at a place is told by its path alone: each node above it keeps the frames
of the calls in which its children are walked, whatever was walked before.

* `Visitor.reached` — the places that a walk comes to;
* `Visitor.visitNode_eq` — the visit of one node: what it notes, what ends it, and what is left for the
  children;
* `Visitor.descentFrames`, `Visitor.framesTo` — the frames that are kept above a place;
* `Visitor.ending`, `Visitor.noted` — why a walk is stopped at a place, and what it notes there;
* `Place.upTo` — the places of a list up to the one that ends the walk;
* `Visitor.visit_eq_through`, `Visitor.visit_eq_of_reached` — the walk of a tree goes through the places
  that it reaches.
-/

namespace MessagePattern

namespace Place

/-- The places of a list up to the first that ends a walk, that one included. -/
def upTo (ends : Place → Bool) : List Place → List Place
  | [] => []
  | p :: more => if ends p then [p] else p :: upTo ends more

/-- Where nothing ends the walk, all of the places are gone through. -/
theorem upTo_eq_self {ends : Place → Bool} {places : List Place}
    (h : places.any ends = false) : upTo ends places = places := by
  induction places with
  | nil => rfl
  | cons p more ih =>
    rw [List.any_cons, Bool.or_eq_false_iff] at h
    rw [upTo, h.1, ih h.2]
    rfl

end Place

/-! ## Levels and frames -/

namespace DepthGuard

/-- A level is refused at the limit, and entered below it, if there are the frames for that. -/
theorem enterWithin_eq (room : Nat) (g : DepthGuard) :
    g.enterWithin room =
      if g.limit ≤ g.depth then
        if refusalFrames ≤ room then .error (.tooDeep ⟨g.limit⟩) else .error .stackExhausted
      else if entryFrames ≤ room then .ok ⟨g.limit, g.depth + 1⟩ else .error .stackExhausted := by
  rw [enterWithin, enter_eq]
  by_cases hFull : g.limit ≤ g.depth
  · rw [if_pos hFull, if_pos hFull]
    rfl
  · rw [if_neg hFull, if_neg hFull]
    rfl

end DepthGuard

/-- The frames that it takes to enter the level below a node and list its children, or to be refused
the level. -/
def Node.levelFrames (n : Node) (refused : Bool) : Nat :=
  if refused then DepthGuard.refusalFrames else n.listingFrames

/-- The children of a node cannot be listed with fewer frames than it takes to enter a level. -/
theorem Node.entryFrames_le_listingFrames (n : Node) : DepthGuard.entryFrames ≤ n.listingFrames := by
  unfold listingFrames DepthGuard.entryFrames
  split <;> decide

/-- A level that is refused takes at least as many frames as one that is entered. -/
theorem Node.levelFrames_le (n : Node) (refused : Bool) :
    n.levelFrames refused ≤ DepthGuard.refusalFrames := by
  unfold levelFrames listingFrames DepthGuard.refusalFrames
  split
  · exact Nat.le_refl _
  · split <;> decide

namespace Walk

@[simp] theorem after_nil (w : Walk) : w.after [] = w := rfl

/-- What was seen earlier stands further in front. -/
theorem after_after (earlier earliest : List Sighting) (w : Walk) :
    (w.after earlier).after earliest = w.after (earliest ++ earlier) := by
  rw [after, after, after, List.append_assoc]

/-- Walks that leave every level that they enter do so in turn, too. -/
theorem guard_inTurn {walks : List (DepthGuard → Walk)} (h : ∀ w ∈ walks, ∀ g, (w g).guard = g)
    (g : DepthGuard) : (inTurn walks g).guard = g := by
  induction walks with
  | nil => rfl
  | cons first more ih =>
    obtain ⟨hFirst, hMore⟩ := List.forall_mem_cons.mp h
    rw [inTurn]
    split
    · rw [hFirst]
      exact ih hMore
    · exact hFirst g

/-- A walk that needs frames inside a call needs one more with the call. -/
theorem inCall_ite (frames room : Nat) (g : DepthGuard) (walk : Nat → Walk) :
    (inCall room g fun room =>
        if room < frames then stopped g .stackExhausted else walk room) =
      if room < 1 + frames then stopped g .stackExhausted else walk (room - 1) := by
  rw [inCall]
  by_cases hCall : 1 ≤ room
  · rw [if_pos hCall]
    exact if_congr (by omega) rfl rfl
  · rw [if_neg hCall, if_pos (by omega)]

/-! ## Walks through lists of places -/

/-- A walk through a list of places, given what is noted at a place and what ends the walk there. -/
def through (notes : Place → List Sighting) (ending : Place → Option Interruption)
    (g : DepthGuard) : List Place → Walk
  | [] => none g
  | p :: more =>
    let onwards : Walk :=
      match ending p with
      | some why => stopped g why
      | Option.none => through notes ending g more
    onwards.after (notes p)

variable (notes : Place → List Sighting) (ending : Place → Option Interruption)

/-- Going through places gives back the guard that was handed in. -/
theorem guard_through (g : DepthGuard) (places : List Place) :
    (through notes ending g places).guard = g := by
  induction places with
  | nil => rfl
  | cons p more ih =>
    rw [through]
    cases ending p with
    | some why => rfl
    | none => exact ih

/-- A walk goes on to more places unless it was stopped. -/
theorem through_append (g : DepthGuard) (places more : List Place) :
    through notes ending g (places ++ more) =
      match (through notes ending g places).result with
      | .ok () => (through notes ending g more).after (through notes ending g places).sightings
      | .error _ => through notes ending g places := by
  induction places with
  | nil => rfl
  | cons p places ih =>
    rw [List.cons_append, through, through]
    -- the walk ends at this place, or goes on with the others
    cases ending p with
    | some why => rfl
    | none =>
      dsimp only
      rw [ih]
      dsimp only [after]
      -- it ends at one of them, or goes on with the places behind them
      split <;> simp

/-- What a walk through places notes, and how it ends. -/
theorem through_eq (g : DepthGuard) (places : List Place) :
    through notes ending g places =
      { guard := g
        sightings := (Place.upTo (fun p => (ending p).isSome) places).flatMap notes
        result := match places.findSome? ending with
          | some why => .error why
          | Option.none => .ok () } := by
  induction places with
  | nil => rfl
  | cons p more ih =>
    rw [through, Place.upTo, List.findSome?_cons]
    -- the walk ends at this place, or goes on with the others
    cases hEnds : ending p with
    | some why => simp [stopped, after]
    | none =>
      dsimp only
      rw [ih]
      simp [after]

end Walk

namespace Visitor

/-! ## What a visit of one node takes -/

/-- Whether a walk stops at a node. -/
def stopsAt (v : Visitor) (n : Node) : Bool := v.handler n.kind == some .stop

/-- The calls in which a node of a kind is visited and, if it has a handler, handled. -/
def visitCalls (v : Visitor) (kind : Node.Kind) : Nat :=
  if (v.handler kind).isSome then 2 else 1

/-- The calls in which a node is descended into. -/
def descentCalls (v : Visitor) : Nat := if v.notesDescents then 2 else 1

/-- The frames that are needed until a node of a kind has been noted by its handler, if it has one. -/
def handlingFrames (v : Visitor) (kind : Node.Kind) : Nat :=
  v.visitCalls kind + if (v.handler kind).isSome then v.noteFrames kind else 0

/-- The frames that are kept while the children of a node of a kind are walked. -/
def descentFrames (v : Visitor) (kind : Node.Kind) : Nat := v.visitCalls kind + v.descentCalls

/-- The frames that the visit of a node needs, apart from those that its children need. -/
def visitFrames (v : Visitor) (n : Node) (refused : Bool) : Nat :=
  if v.stopsAt n then v.handlingFrames n.kind
  else max (v.handlingFrames n.kind)
    (v.descentFrames n.kind + n.levelFrames refused)

/-- What ends the visit of a node before its children are walked. -/
def endingAt (v : Visitor) (n : Node) (room : Nat) (g : DepthGuard) : Option Interruption :=
  let refused := !v.stopsAt n && decide (g.limit ≤ g.depth)
  if room < v.visitFrames n refused then some .stackExhausted
  else if refused then some (.tooDeep ⟨g.limit⟩)
  else none

/-- What is noted at a node that is seen at some depth: by its handler, if it has one, and as it is
descended into, if that is noted, as far as there are the frames for it. -/
def notesAt (v : Visitor) (n : Node) (room : Nat) (depth : Int) : List Sighting :=
  if v.handlingFrames n.kind ≤ room then
    (if (v.handler n.kind).isSome then [⟨n, depth⟩] else []) ++
      if v.notesDescents && !v.stopsAt n && decide (v.descentFrames n.kind ≤ room + 1) then
        [⟨n, depth⟩] else []
  else []

variable (v : Visitor)

/-- A visit calls at most itself and one handler before it descends. -/
theorem visitCalls_le (kind : Node.Kind) : v.visitCalls kind ≤ 2 := by
  unfold visitCalls
  split <;> decide

/-- Every visit takes the frame of its own call. -/
theorem handlingFrames_pos (kind : Node.Kind) : 0 < v.handlingFrames kind := by
  have hCalls : 0 < v.visitCalls kind := by
    unfold visitCalls
    split <;> decide
  exact Nat.lt_of_lt_of_le hCalls (Nat.le_add_right _ _)

/-- A visit takes no fewer frames than its handling does. -/
theorem handlingFrames_le_visitFrames (n : Node) (refused : Bool) :
    v.handlingFrames n.kind ≤ v.visitFrames n refused := by
  unfold visitFrames
  split
  · exact Nat.le_refl _
  · exact Nat.le_max_left _ _

/-- Every visit takes at least one frame. -/
theorem visitFrames_pos (n : Node) (refused : Bool) : 0 < v.visitFrames n refused :=
  Nat.lt_of_lt_of_le (v.handlingFrames_pos n.kind) (v.handlingFrames_le_visitFrames n refused)

/-- The level of a node is entered and its children are listed, or the walk is stopped. -/
theorem deeper_eq (n : Node) (room : Nat) (g : DepthGuard) {children : DepthGuard → Walk}
    (hChildren : ∀ g, (children g).guard = g) :
    (Walk.deeper room g fun inner => Walk.afterCalls n.listingFrames room inner (children inner)) =
      if room < n.levelFrames (decide (g.limit ≤ g.depth)) then Walk.stopped g .stackExhausted
      else if g.limit ≤ g.depth then Walk.stopped g (.tooDeep ⟨g.limit⟩)
      else { children ⟨g.limit, g.depth + 1⟩ with guard := g } := by
  have hEntry := n.entryFrames_le_listingFrames
  rw [Walk.deeper, DepthGuard.enterWithin_eq, Node.levelFrames]
  -- the guard is full and refuses, or it lets the level in
  by_cases hFull : g.limit ≤ g.depth
  · simp only [hFull, decide_true, if_true]
    by_cases hRefuse : DepthGuard.refusalFrames ≤ room
    · rw [if_pos hRefuse, if_neg (Nat.not_lt.mpr hRefuse)]
    · rw [if_neg hRefuse, if_pos (Nat.lt_of_not_le hRefuse)]
  · simp only [hFull, decide_false, if_false, Bool.false_eq_true]
    by_cases hList : n.listingFrames ≤ room
    · rw [if_pos (Nat.le_trans hEntry hList), if_neg (Nat.not_lt.mpr hList)]
      dsimp only
      rw [Walk.afterCalls, if_pos hList, hChildren, DepthGuard.exit_enter]
    · rw [if_pos (Nat.lt_of_not_le hList)]
      by_cases hEnter : DepthGuard.entryFrames ≤ room
      · rw [if_pos hEnter]
        dsimp only
        rw [Walk.afterCalls, if_neg hList, Walk.stopped, DepthGuard.exit_enter]
        rfl
      · rw [if_neg hEnter]

/-- A node is descended into with the frames for its calls and for the level below, or the walk is
stopped. -/
theorem descend_eq (n : Node) (room : Nat) (g : DepthGuard) {children : Nat → DepthGuard → Walk}
    (hChildren : ∀ room g, (children room g).guard = g) :
    v.descend n room g children =
      (if room < v.descentCalls + n.levelFrames (decide (g.limit ≤ g.depth)) then
        Walk.stopped g .stackExhausted
      else if g.limit ≤ g.depth then Walk.stopped g (.tooDeep ⟨g.limit⟩)
      else { children (room - v.descentCalls) ⟨g.limit, g.depth + 1⟩ with guard := g }).after
        (if v.notesDescents && decide (1 ≤ room) then [⟨n, g.depth⟩] else []) := by
  unfold descend descentCalls
  -- below the call there is the guard and the listing of the children
  simp only [deeper_eq _ _ _ (hChildren _), Walk.inCall_ite]
  cases v.notesDescents with
  | false => rfl
  | true =>
    -- the call that notes the descent is around the one that descends
    rw [if_pos rfl, if_pos rfl, Walk.inCall, Bool.true_and]
    by_cases hCall : 1 ≤ room
    · rw [if_pos hCall, if_pos (decide_eq_true hCall), Nat.sub_sub]
      exact congrArg _ (if_congr (by omega) rfl rfl)
    · rw [if_neg hCall, if_neg (by simpa using hCall), if_pos (by omega)]
      rfl

/-- A node is noted with the frames for its handler, and then descended into unless the walk stops. -/
theorem visitNode_eq_ite (n : Node) (room : Nat) (g : DepthGuard)
    (children : Nat → DepthGuard → Walk) :
    v.visitNode n room g children =
      if v.handlingFrames n.kind ≤ room then
        (if v.stopsAt n then Walk.none g
          else v.descend n (room - v.visitCalls n.kind) g children).after
          (if (v.handler n.kind).isSome then [⟨n, g.depth⟩] else [])
      else Walk.stopped g .stackExhausted := by
  unfold visitNode handlingFrames visitCalls stopsAt Walk.inCall Walk.afterCalls
  cases v.handler n.kind with
  -- without a handler there is the one call of the visit
  | none => rfl
  | some reaction =>
    show (if 1 ≤ room then _ else _) = if 2 + v.noteFrames n.kind ≤ room then _ else _
    -- the visit, its handler and what the handler notes are called one inside the other
    by_cases hHandled : 2 + v.noteFrames n.kind ≤ room
    · have hNote : v.noteFrames n.kind ≤ room - 1 - 1 := by omega
      rw [if_pos hHandled, if_pos (by omega)]
      dsimp only
      rw [if_pos (by omega), if_pos hNote, Nat.sub_sub]
      cases reaction <;> rfl
    · rw [if_neg hHandled]
      by_cases hVisit : 1 ≤ room
      · rw [if_pos hVisit]
        dsimp only
        by_cases hHandle : 1 ≤ room - 1
        · rw [if_pos hHandle, if_neg (by omega)]
        · rw [if_neg hHandle]
      · rw [if_neg hVisit]

/-- The visit of a node notes it, and goes on to its children unless it stops or is stopped. -/
theorem visitNode_eq (n : Node) (room : Nat) (g : DepthGuard) {children : Nat → DepthGuard → Walk}
    (hChildren : ∀ room g, (children room g).guard = g) :
    v.visitNode n room g children =
      (match v.endingAt n room g with
        | some why => Walk.stopped g why
        | none =>
          if v.stopsAt n then Walk.none g
          else { children (room - v.descentFrames n.kind) ⟨g.limit, g.depth + 1⟩ with guard := g }).after
        (v.notesAt n room g.depth) := by
  have hLeast := v.handlingFrames_le_visitFrames n (!v.stopsAt n && decide (g.limit ≤ g.depth))
  rw [visitNode_eq_ite, endingAt, notesAt]
  -- the calls of the visit itself fit, or the stack is exhausted before anything is noted
  by_cases hHandled : v.handlingFrames n.kind ≤ room
  · rw [if_pos hHandled, if_pos hHandled]
    cases hStops : v.stopsAt n with
    | true =>
      have hFrames : ¬room < v.visitFrames n false := by
        rw [visitFrames, hStops, if_pos rfl]
        exact Nat.not_lt.mpr hHandled
      simp [hFrames]
    | false =>
      -- beyond its calls the visit needs what the descent needs of the room that is left
      have hCalls : v.visitCalls n.kind ≤ room := Nat.le_trans (Nat.le_add_right _ _) hHandled
      have hFrames : room - v.visitCalls n.kind <
            v.descentCalls + n.levelFrames (decide (g.limit ≤ g.depth)) ↔
          room < v.visitFrames n (decide (g.limit ≤ g.depth)) := by
        rw [visitFrames, hStops, if_neg Bool.false_ne_true, descentFrames]
        omega
      -- a descent is noted where a call is left for it
      have hNoted : (v.notesDescents && decide (1 ≤ room - v.visitCalls n.kind)) =
          (v.notesDescents && decide (v.descentFrames n.kind ≤ room + 1)) := by
        unfold descentFrames descentCalls
        cases v.notesDescents with
        | false => rfl
        | true => exact congrArg _ (decide_eq_decide.mpr (by rw [if_pos rfl]; omega))
      rw [if_neg Bool.false_ne_true, descend_eq _ _ _ _ hChildren, Walk.after_after, hNoted,
        Nat.sub_sub, ← descentFrames]
      simp only [hFrames, Bool.not_false, Bool.true_and, Bool.and_true, Bool.false_eq_true, if_false,
        decide_eq_true_iff]
      congr 1
      split
      · rfl
      · split <;> rfl
  · rw [if_neg hHandled, if_neg hHandled]
    dsimp only
    rw [if_pos (by omega)]
    rfl

/-! ## Walks of trees -/

/-- The places that a walk without a limit comes to: those with no node above them at which it
stops, in pre-order. -/
def reached (v : Visitor) (n : Node) : List Place := n.visible v.stopsAt

/-- The frames that the nodes above the end of a path keep. -/
def framesTo (v : Visitor) (n : Node) : List Nat → Nat
  | [] => 0
  | i :: path =>
    v.descentFrames n.kind +
      match n.children[i]? with
      | some child => v.framesTo child path
      | none => 0

/-- What ends the walk of a tree at a place of it: what ends the visit of the node there, with the
frames that are left and at the level that was come to. -/
def ending (v : Visitor) (n : Node) (room : Nat) (g : DepthGuard) (p : Place) :
    Option Interruption :=
  v.endingAt p.node (room - v.framesTo n p.path) ⟨g.limit, g.depth + p.distance⟩

/-- What the walk of a tree notes at a place of it. -/
def noted (v : Visitor) (n : Node) (room : Nat) (g : DepthGuard) (p : Place) : List Sighting :=
  v.notesAt p.node (room - v.framesTo n p.path) (g.depth + p.distance)

section
variable {n child : Node} {i : Nat} (hChild : n.children[i]? = some child) (room : Nat)
  (g : DepthGuard)
include hChild

/-- The frames down to a place are those of the first descent and those below it. -/
theorem framesTo_cons (path : List Nat) :
    v.framesTo n (i :: path) = v.descentFrames n.kind + v.framesTo child path := by
  rw [framesTo, hChild]

/-- What ends the walk below a child ends the walk of its parent there. -/
theorem ending_below (p : Place) :
    v.ending n room g (p.below i) =
      v.ending child (room - v.descentFrames n.kind) ⟨g.limit, g.depth + 1⟩ p := by
  have hDepth : g.depth + ((p.distance + 1 : Nat) : Int) = g.depth + 1 + p.distance := by omega
  rw [ending, ending, Place.below, v.framesTo_cons hChild, Nat.sub_add_eq]
  exact congrArg (fun depth => v.endingAt _ _ ⟨g.limit, depth⟩) hDepth

/-- What is noted below a child is noted by the walk of its parent there. -/
theorem noted_below (p : Place) :
    v.noted n room g (p.below i) =
      v.noted child (room - v.descentFrames n.kind) ⟨g.limit, g.depth + 1⟩ p := by
  have hDepth : g.depth + ((p.distance + 1 : Nat) : Int) = g.depth + 1 + p.distance := by omega
  rw [noted, noted, Place.below, v.framesTo_cons hChild, Nat.sub_add_eq]
  exact congrArg _ hDepth

/-- The places of a child are one level further from the parent, and have the frames that the
parent leaves. -/
theorem through_below (places : List Place) :
    Walk.through (v.noted n room g) (v.ending n room g) g (places.map (Place.below i)) =
      { Walk.through (v.noted child (room - v.descentFrames n.kind) ⟨g.limit, g.depth + 1⟩)
          (v.ending child (room - v.descentFrames n.kind) ⟨g.limit, g.depth + 1⟩)
          ⟨g.limit, g.depth + 1⟩ places with guard := g } := by
  induction places with
  | nil => rfl
  | cons p places ih =>
    rw [List.map_cons, Walk.through, Walk.through, v.ending_below hChild, v.noted_below hChild]
    dsimp only
    rw [ih]
    split <;> rfl

end

/-- That the walk of a tree goes through the places that it reaches. -/
def GoesThrough (n : Node) : Prop :=
  ∀ room g, v.visit n room g =
    Walk.through (v.noted n room g) (v.ending n room g) g (v.reached n)

/-- Walks of numbered children in turn, one level down, are one walk through the places of all of
them. -/
theorem inTurn_eq_through (n : Node) (room : Nat) (g : DepthGuard) {children : List (Node × Nat)}
    (hNumbered : ∀ child ∈ children, n.children[child.2]? = some child.1)
    (hVisit : ∀ child ∈ children, v.GoesThrough child.1) :
    { Walk.inTurn (children.map fun child => v.visit child.1 (room - v.descentFrames n.kind))
        ⟨g.limit, g.depth + 1⟩ with guard := g } =
      Walk.through (v.noted n room g) (v.ending n room g) g
        (children.flatMap fun (child, i) => (v.reached child).map (Place.below i)) := by
  induction children with
  | nil => rfl
  | cons child more ih =>
    -- the first child, and the others by the hypothesis
    obtain ⟨hFirst, hMore⟩ := List.forall_mem_cons.mp hVisit
    obtain ⟨hChild, hNumberedMore⟩ := List.forall_mem_cons.mp hNumbered
    rw [List.flatMap_cons, Walk.through_append, v.through_below hChild,
      ← ih hNumberedMore hMore, List.map_cons, Walk.inTurn, hFirst, Walk.guard_through]
    -- by how the walk of the first child ends
    generalize Walk.through (v.noted child.1 _ _) (v.ending child.1 _ _) _ (v.reached child.1) = w
    obtain ⟨guard, sightings, result⟩ := w
    cases result <;> rfl

/-- The walk of a tree goes through the places that it reaches. -/
theorem visit_eq_through (n : Node) : v.GoesThrough n := by
  induction n using Node.inductionOn with
  | step n ih =>
    intro room g
    -- every child gives back the guard, so all of them start from the same one
    have hGuard : ∀ room g,
        (Walk.inTurn (n.children.map fun child => v.visit child room) g).guard = g := by
      intro room
      refine Walk.guard_inTurn fun w hMem g => ?_
      obtain ⟨child, hChild, rfl⟩ := List.mem_map.mp hMem
      rw [ih child hChild, Walk.guard_through]
    have hChildren : ∀ room, (n.children.map fun child => v.visit child room) =
        n.children.zipIdx.map fun child => v.visit child.1 room := by
      intro room
      conv => lhs; rw [← List.zipIdx_map_fst 0 n.children, List.map_map]
      rfl
    -- the root is at no distance, so its own frames and depth are those of the walk
    have hRoot : v.ending n room g ⟨[], n⟩ = v.endingAt n room g := by
      rw [ending, Place.distance_root, Int.natCast_zero, Int.add_zero]
      rfl
    have hNoted : v.noted n room g ⟨[], n⟩ = v.notesAt n room g.depth := by
      rw [noted, Place.distance_root, Int.natCast_zero, Int.add_zero]
      rfl
    -- the walk of the root, and then the walks of its children in turn
    rw [visit_eq, v.visitNode_eq n room g hGuard, hChildren, reached, Node.visible_eq,
      Walk.through, hRoot, hNoted]
    cases v.endingAt n room g with
    | some why => rfl
    | none =>
      dsimp only
      cases v.stopsAt n with
      | true => rfl
      | false =>
        rw [if_neg Bool.false_ne_true, if_neg Bool.false_ne_true]
        rw [v.inTurn_eq_through n room g
          (fun child hMem => (List.mem_zipIdx_iff_getElem?.mp hMem))
          (fun child hMem => ih child.1 (List.fst_mem_of_mem_zipIdx hMem))]
        rfl

/-- What a walk of a tree notes, and how it ends. -/
theorem visit_eq_of_reached (n : Node) (room : Nat) (g : DepthGuard) :
    v.visit n room g =
      { guard := g
        sightings := (Place.upTo (fun p => (v.ending n room g p).isSome) (v.reached n)).flatMap
          (v.noted n room g)
        result := match (v.reached n).findSome? (v.ending n room g) with
          | some why => .error why
          | none => .ok () } := by
  rw [v.visit_eq_through, Walk.through_eq]

end Visitor

end MessagePattern
