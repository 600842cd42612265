import Mathlib.Data.List.MinMax
import MessagePattern.Proofs.Places
import MessagePattern.Proofs.WellFormed

/-!
# The levels of a tree

How many levels a walk enters depends on the nodes at which it enters one. The levels of a tree
are the most nodes that count on a way down; where every node counts, no place is as far from the
root as there are levels. A message that a pattern stands for has three levels for each level of
nesting: the message, the placeholder and the case.

* `Node.levels` — the most nodes that count on a way down a tree;
* `Node.distance_lt_levels` — places are closer to the root than the tree has levels;
* `Message.WellFormed.levels_le` — the levels of a message whose cases nest so deep.
-/

namespace MessagePattern

namespace Node

/-- The most nodes that count on a way down a tree. -/
def levels (counts : Node → Bool) (n : Node) : Nat :=
  (if counts n then 1 else 0) +
    (n.children.attach.map fun ⟨child, _⟩ => child.levels counts).foldr max 0
termination_by sizeOf n
decreasing_by exact sizeOf_lt_of_mem_children ‹_›

/-- A node has one level, if it counts, more than the deepest of its children. -/
theorem levels_eq (counts : Node → Bool) (n : Node) :
    n.levels counts =
      (if counts n then 1 else 0) + (n.children.map (levels counts)).foldr max 0 := by
  rw [levels, List.map_subtype fun _ _ => rfl, List.unattach_attach]

variable {counts : Node → Bool} {n : Node}

/-- A child has fewer levels than its parent, if the parent counts. -/
theorem levels_child_le (counts : Node → Bool) {child : Node} (h : child ∈ n.children) :
    (if counts n then 1 else 0) + child.levels counts ≤ n.levels counts := by
  have hMax : child.levels counts ≤ (n.children.map (levels counts)).foldr max 0 :=
    List.le_max_of_le (List.mem_map_of_mem h) (Nat.le_refl _)
  rw [levels_eq counts n]
  omega

/-- A bound on the levels of a node is a bound on those of its children. -/
theorem levels_le_iff {k : Nat} :
    n.levels counts ≤ (if counts n then 1 else 0) + k ↔
      ∀ child ∈ n.children, child.levels counts ≤ k := by
  constructor
  · intro h child hChild
    have hBelow := levels_child_le counts hChild
    omega
  · intro h
    -- no child is deeper than the bound
    have hMax : (n.children.map (levels counts)).foldr max 0 ≤ k := by
      refine List.max_le_of_forall_le _ _ fun level hLevel => ?_
      obtain ⟨child, hChild, rfl⟩ := List.mem_map.mp hLevel
      exact h child hChild
    rw [levels_eq]
    omega

/-- A node has at most one level more than the nodes below it. -/
theorem levels_le_succ {k : Nat} (h : ∀ child ∈ n.children, child.levels counts ≤ k) :
    n.levels counts ≤ k + 1 := by
  have hLevels := levels_le_iff.mpr h
  split at hLevels <;> omega

/-- A node that does not count has no more levels than the nodes below it. -/
theorem levels_le_of_not_counts {k : Nat} (hCounts : counts n = false)
    (h : ∀ child ∈ n.children, child.levels counts ≤ k) : n.levels counts ≤ k := by
  have hLevels := levels_le_iff.mpr h
  rw [hCounts] at hLevels
  simpa using hLevels

/-- No place is as far from the root as there are levels. -/
theorem distance_lt_levels {p : Place} (h : p ∈ n.places) :
    p.distance < n.levels fun _ => true := by
  obtain ⟨path, node⟩ := p
  rw [mem_places_iff] at h
  -- by induction on the path, which enters one level at a time
  induction path generalizing n with
  | nil =>
    rw [levels_eq]
    exact Nat.lt_of_lt_of_le Nat.zero_lt_one (Nat.le_add_right _ _)
  | cons i path ih =>
    obtain ⟨child, hChild, hBelow⟩ := Option.bind_eq_some_iff.mp h
    have hDistance : path.length < child.levels fun _ => true := ih hBelow
    have hLevels := levels_child_le (fun _ => true) (List.mem_of_getElem? hChild)
    show path.length + 1 < _
    simp only [if_true] at hLevels
    omega

end Node

/-! ## Well-formed messages -/

/-- Below a well-formed element are cases, with messages that may stand in braces. -/
theorem Element.WellFormed.exists_case {inBraces : Bool → Message → Prop} {b : Bool} {e : Element}
    (h : e.WellFormed inBraces b) {child : Node} (hChild : child ∈ (Node.element e).children) :
    ∃ c b', child = .case c ∧ inBraces b' c.message := by
  cases e with
  | plural id kind offset cases =>
    obtain ⟨c, hCase, rfl⟩ := List.mem_map.mp hChild
    exact ⟨c, true, rfl, h.2.2.2.inBraces c hCase⟩
  | select id type cases =>
    obtain ⟨c, hCase, rfl⟩ := List.mem_map.mp hChild
    exact ⟨c, false, rfl, h.2.2.2.2.2.2.inBraces c hCase⟩
  | _ => simp [Node.children] at hChild

/-- A well-formed message has three levels for each nesting, and two at its innermost. -/
theorem Message.WellFormed.levels_le {nesting : Nat} {b : Bool} {m : Message}
    (h : m.WellFormed nesting b) :
    ((Node.message m).levels fun _ => true) ≤ 3 * nesting + 2 := by
  -- by induction on the nesting: what stands in braces is three levels further down
  induction nesting generalizing b m with
  | zero =>
    -- a message that nothing may nest in has elements without cases
    refine Node.levels_le_succ fun node hNode => Node.levels_le_succ fun child hChild => ?_
    obtain ⟨e, hElement, rfl⟩ := List.mem_map.mp hNode
    obtain ⟨c, b', -, hNone⟩ := (h.element e hElement).exists_case hChild
    exact hNone.elim
  | succ nesting ih =>
    refine Node.levels_le_succ fun node hNode => Node.levels_le_succ fun child hChild => ?_
    obtain ⟨e, hElement, rfl⟩ := List.mem_map.mp hNode
    -- a child of an element is a case, and its only child is a message of less nesting
    obtain ⟨c, b', rfl, hMessage⟩ := (h.element e hElement).exists_case hChild
    refine Node.levels_le_succ fun message hBody => ?_
    obtain rfl := List.mem_singleton.mp hBody
    exact ih hMessage

end MessagePattern
