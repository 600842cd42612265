import MessagePattern.DepthLimit
import MessagePattern.Tree.Basic

/-!
# Walks

A visitor walks a tree in pre-order. For each kind of node it may have a handler, which takes note of
the node and then either descends into its children or stops there; nodes of other kinds are descended
into unnoted. Descending enters one level of a depth guard, which stops the walk at its limit.

A walk is made of calls, one in the other: to visit a node, to handle it, to descend into it, and so on
for its children. Each takes a frame of the stack, and a walk that has none left is stopped, too. Calls
that are over before the walk goes on, such as those that enter a level or list the children, need
frames only for the time being.

* `Visitor` — the handlers;
* `Sighting` — a node that was noted, and the level at which it was seen;
* `Visitor.visit` — the walk of a tree, and the guard afterwards;
* `Visitor.visitEach` — the walks of several trees with one guard.
-/

namespace MessagePattern

/-- What a handler does after taking note of a node. -/
inductive Reaction where
  | descend
  | stop
  deriving DecidableEq, Repr

/-- How a tree is walked: the handlers, by kind of node. -/
structure Visitor where
  handler : Node.Kind → Option Reaction := fun _ => none
  /-- The frames that a handler needs for the time being to take note of a node. -/
  noteFrames : Node.Kind → Nat := fun _ => 0
  /-- Whether nodes are noted as they are descended into, with or without a handler. This is done in a
  call around the one that descends. -/
  notesDescents : Bool := false

/-- A node that a walk took note of. -/
structure Sighting where
  node : Node
  depth : Int

/-- What comes of a walk, whether it was finished or not: the guard afterwards, the nodes noted, in the
order of the walk, and why it was stopped, if it was. -/
structure Walk where
  guard : DepthGuard
  sightings : List Sighting
  result : Except Interruption Unit

namespace Walk

/-- The walk that goes nowhere. -/
def none (g : DepthGuard) : Walk := ⟨g, [], .ok ()⟩

/-- A walk that is stopped before it notes anything. -/
def stopped (g : DepthGuard) (why : Interruption) : Walk := ⟨g, [], .error why⟩

/-- Puts sightings in front of a walk. -/
def after (earlier : List Sighting) (w : Walk) : Walk :=
  { w with sightings := earlier ++ w.sightings }

/-- One walk after another with the same guard, until one is stopped. -/
def inTurn : List (DepthGuard → Walk) → DepthGuard → Walk
  | [], g => none g
  | first :: more, g =>
    let w := first g
    match w.result with
    | .ok () => (inTurn more w.guard).after w.sightings
    | .error _ => w

/-- A walk inside a call, which takes a frame, with the frames that are left. -/
def inCall (room : Nat) (g : DepthGuard) (walk : Nat → Walk) : Walk :=
  if 1 ≤ room then walk (room - 1) else stopped g .stackExhausted

/-- A walk that goes on after calls that need so many frames for the time being. -/
def afterCalls (frames room : Nat) (g : DepthGuard) (walk : Walk) : Walk :=
  if frames ≤ room then walk else stopped g .stackExhausted

/-- A walk one level deeper, unless the level cannot be entered. The level is left in any case. -/
def deeper (room : Nat) (g : DepthGuard) (walk : DepthGuard → Walk) : Walk :=
  match g.enterWithin room with
  | .error why => stopped g why
  | .ok inner =>
    let w := walk inner
    { w with guard := w.guard.exit }

/-- What the walk of a tree gives back: the tree, unless it was stopped. Handlers and descents alike
hand on the node that they were given. -/
def returned (w : Walk) (n : Node) : Except Interruption Node := w.result.map fun _ => n

end Walk

/-- The frames that are taken while the children of a node are listed: by a call that goes through its
fields, by one that looks at a field or goes through several children in a field, and by one that looks
at each of these. -/
def Node.listingFrames (n : Node) : Nat :=
  if n.kind = .case ∨ n.children = [] then 2 else 3

namespace Visitor

/-- The call that descends into a node, given the walk of its children. -/
def descend (v : Visitor) (n : Node) (room : Nat) (g : DepthGuard)
    (children : Nat → DepthGuard → Walk) : Walk :=
  let descent (room : Nat) : Walk :=
    Walk.inCall room g fun room => Walk.deeper room g fun inner =>
      Walk.afterCalls n.listingFrames room inner (children room inner)
  if v.notesDescents then Walk.inCall room g fun room => (descent room).after [⟨n, g.depth⟩]
  else descent room

/-- The call that visits a node, given the walk of its children. -/
def visitNode (v : Visitor) (n : Node) (room : Nat) (g : DepthGuard)
    (children : Nat → DepthGuard → Walk) : Walk :=
  Walk.inCall room g fun room =>
    match v.handler n.kind with
    | none => v.descend n room g children
    | some reaction =>
      Walk.inCall room g fun room => Walk.afterCalls (v.noteFrames n.kind) room g <|
        Walk.after [⟨n, g.depth⟩] <|
          -- A handler that stops keeps the guard from being asked at all.
          match reaction with
          | .stop => Walk.none g
          | .descend => v.descend n room g children

/-- Walks a tree, with so many frames left. -/
def visit (v : Visitor) (n : Node) (room : Nat) (g : DepthGuard) : Walk :=
  v.visitNode n room g fun room =>
    Walk.inTurn (n.children.attach.map fun ⟨child, _⟩ => visit v child room)
termination_by sizeOf n
decreasing_by exact Node.sizeOf_lt_of_mem_children ‹_›

/-- The children of a node are walked one after another, each with the frames that the calls for the
node leave. -/
theorem visit_eq (v : Visitor) (n : Node) (room : Nat) (g : DepthGuard) :
    v.visit n room g = v.visitNode n room g fun room =>
      Walk.inTurn (n.children.map fun child => v.visit child room) := by
  rw [visit]
  congr
  funext room
  rw [List.map_subtype fun _ _ => rfl, List.unattach_attach]

/-- Walks several trees with one guard; a walk that is stopped does not keep the next from being
begun. -/
def visitEach (v : Visitor) (room : Nat) : List Node → DepthGuard → List Walk
  | [], _ => []
  | n :: more, g =>
    let w := v.visit n room g
    w :: v.visitEach room more w.guard

end Visitor

end MessagePattern
