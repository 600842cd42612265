import Mathlib.Data.List.Basic
import MessagePattern.Tree.Basic

/-!
# Places in a tree

A node may occur in a tree more than once, so where it stands is told by a path: the numbers of
the children through which it is reached. A walk may leave out what is below some of the nodes;
the places that are left are listed here in pre-order.

* `Node.descendant?` — the node at the end of a path;
* `Node.OpenTo` — no node above the end of a path is one at which a walk stops;
* `Node.visible`, `Node.places` — the places of a tree in pre-order, up to the nodes at which a
  walk stops, and all of them;
* `Node.mem_visible_iff` — a place is listed exactly if its path is open and leads to its node;
* `Node.pairwise_lt_visible` — paths are listed once each, a node in front of what is below it
  and a child in front of the next child.
-/

namespace MessagePattern

/-- A node of a tree, and the path to it. -/
structure Place where
  path : List Nat
  node : Node

namespace Place

/-- How far a place is from the root. -/
def distance (p : Place) : Nat := p.path.length

/-- A place in a child, as a place in the parent. -/
def below (child : Nat) (p : Place) : Place := { p with path := child :: p.path }

@[simp] theorem distance_root (n : Node) : (Place.mk [] n).distance = 0 := rfl

@[simp] theorem distance_below (child : Nat) (p : Place) :
    (p.below child).distance = p.distance + 1 := rfl

@[simp] theorem node_below (child : Nat) (p : Place) : (p.below child).node = p.node := rfl

end Place

namespace Node

/-- The node to which a path leads. -/
def descendant? (n : Node) : List Nat → Option Node
  | [] => some n
  | i :: path => n.children[i]?.bind fun child => child.descendant? path

/-- No node above the end of a path stops. -/
def OpenTo (stops : Node → Bool) (n : Node) (path : List Nat) : Prop :=
  ∀ front, front <+: path → front ≠ path →
    ∀ above, n.descendant? front = some above → stops above = false

/-- The places of a tree in pre-order, without those below a node that stops. -/
def visible (stops : Node → Bool) (n : Node) : List Place :=
  ⟨[], n⟩ ::
    if stops n then []
    else n.children.attach.zipIdx.flatMap fun ⟨⟨child, _⟩, i⟩ =>
      (child.visible stops).map (Place.below i)
termination_by sizeOf n
decreasing_by exact sizeOf_lt_of_mem_children ‹_›

/-- The places of a tree are its root and, unless it stops, the places of its children. -/
theorem visible_eq (stops : Node → Bool) (n : Node) :
    n.visible stops = ⟨[], n⟩ ::
      if stops n then []
      else n.children.zipIdx.flatMap fun (child, i) =>
        (child.visible stops).map (Place.below i) := by
  have hChildren : n.children.zipIdx =
      n.children.attach.zipIdx.map (Prod.map Subtype.val id) := by
    rw [← List.zipIdx_map, List.attach_map_subtype_val]
  rw [visible, hChildren, List.flatMap_map]
  rfl

/-- The places of a tree in pre-order. -/
def places (n : Node) : List Place := n.visible fun _ => false

/-- The places of a tree are its root and the places of its children in order. -/
theorem places_eq (n : Node) :
    n.places = ⟨[], n⟩ :: n.children.zipIdx.flatMap fun (child, i) =>
      child.places.map (Place.below i) := by
  rw [places, visible_eq]
  rfl

/-- The nodes of a tree in pre-order are its root and the nodes of its children. -/
theorem map_node_places (n : Node) :
    n.places.map (·.node) = n :: n.children.flatMap fun child => child.places.map (·.node) := by
  have hBelow : ∀ (child : Node) (i : Nat),
      (child.places.map (Place.below i)).map (·.node) = child.places.map (·.node) :=
    fun child i => by rw [List.map_map]; rfl
  rw [places_eq, List.map_cons, List.map_flatMap]
  simp only [hBelow]
  conv => rhs; rw [← List.zipIdx_map_fst 0 n.children, List.flatMap_map]

/-! ## Which places are listed -/

/-- Nothing stands above the root. -/
theorem openTo_nil (stops : Node → Bool) (n : Node) : n.OpenTo stops [] := by
  intro front hFront hProper
  exact absurd (List.prefix_nil.mp hFront) hProper

/-- A path is open if the walk does not stop at the root and the rest is open below the child. -/
theorem openTo_cons {stops : Node → Bool} {n child : Node} {i : Nat} {path : List Nat}
    (hChild : n.children[i]? = some child) :
    n.OpenTo stops (i :: path) ↔ stops n = false ∧ child.OpenTo stops path := by
  constructor
  · intro hOpen
    -- the root is above every other node, and what is above below the child is above below the root
    have hRoot : stops n = false := hOpen [] List.nil_prefix (by simp) n rfl
    refine ⟨hRoot, fun front hFront hProper above hAbove => ?_⟩
    have hBelow : n.descendant? (i :: front) = some above := by
      simp [descendant?, hChild, hAbove]
    exact hOpen (i :: front) (List.cons_prefix_cons.mpr ⟨rfl, hFront⟩)
      (by simpa using hProper) above hBelow
  · rintro ⟨hRoot, hOpen⟩ front hFront hProper above hAbove
    cases front with
    | nil =>
      obtain rfl : n = above := Option.some.inj hAbove
      exact hRoot
    | cons j front =>
      obtain ⟨rfl, hRest⟩ := List.cons_prefix_cons.mp hFront
      have hBelow : child.descendant? front = some above := by
        simpa [descendant?, hChild] using hAbove
      exact hOpen front hRest (by simpa using hProper) above hBelow

/-- A place that is not the root is listed in the child with which its path begins. -/
theorem mem_visible_cons {stops : Node → Bool} {n : Node} {i : Nat} {path : List Nat}
    {node : Node} : (⟨i :: path, node⟩ : Place) ∈ n.visible stops ↔
      stops n = false ∧
        ∃ child, n.children[i]? = some child ∧ (⟨path, node⟩ : Place) ∈ child.visible stops := by
  rw [visible_eq, List.mem_cons, or_iff_right (by simp)]
  cases hStops : stops n with
  | true => simp
  | false =>
    -- the walk goes on, so the place is below the child that the path enters
    simp only [Bool.false_eq_true, if_false, true_and, List.mem_flatMap, List.mem_map,
      Prod.exists, List.mem_zipIdx_iff_getElem?]
    constructor
    · rintro ⟨child, j, hChild, ⟨path', node'⟩, hMem, hSame⟩
      obtain ⟨⟨rfl, rfl⟩, rfl⟩ : (j = i ∧ path' = path) ∧ node' = node := by
        simpa [Place.below] using hSame
      exact ⟨child, hChild, hMem⟩
    · rintro ⟨child, hChild, hMem⟩
      exact ⟨child, i, hChild, _, hMem, rfl⟩

/-- A place is listed exactly if its path leads to its node and no node above it stops. -/
theorem mem_visible_iff {stops : Node → Bool} {n : Node} {p : Place} :
    p ∈ n.visible stops ↔ n.descendant? p.path = some p.node ∧ n.OpenTo stops p.path := by
  obtain ⟨path, node⟩ := p
  -- by induction on the path, which goes down one child at a time
  induction path generalizing n with
  | nil =>
    -- the place of the root is not one below a child
    have hNotBelow : ∀ (child : Node) (i : Nat),
        (⟨[], node⟩ : Place) ∉ (child.visible stops).map (Place.below i) := by
      intro child i hMem
      obtain ⟨p, -, hSame⟩ := List.mem_map.mp hMem
      simp [Place.below] at hSame
    rw [visible_eq, List.mem_cons]
    constructor
    · rintro (hRoot | hBelow)
      · obtain ⟨-, rfl⟩ := Place.mk.inj hRoot
        exact ⟨rfl, openTo_nil stops _⟩
      · split at hBelow
        · simp at hBelow
        · obtain ⟨⟨child, i⟩, -, hMem⟩ := List.mem_flatMap.mp hBelow
          exact absurd hMem (hNotBelow child i)
    · rintro ⟨hRoot, -⟩
      obtain rfl : n = node := Option.some.inj hRoot
      exact .inl rfl
  | cons i path ih =>
    rw [mem_visible_cons]
    cases hChild : n.children[i]? with
    | none => simp [descendant?, hChild]
    | some child =>
      rw [openTo_cons hChild]
      simp only [Option.some.injEq, exists_eq_left', ih, descendant?, hChild, Option.bind_some]
      exact and_left_comm

/-- Every place of a tree is listed, and its path leads to its node. -/
theorem mem_places_iff {n : Node} {p : Place} :
    p ∈ n.places ↔ n.descendant? p.path = some p.node := by
  have hOpen : n.OpenTo (fun _ => false) p.path := fun _ _ _ _ _ => rfl
  rw [places, mem_visible_iff, and_iff_left hOpen]

/-- A path leads to a node by way of the nodes above it. -/
theorem descendant?_append (n : Node) (front rest : List Nat) :
    n.descendant? (front ++ rest) =
      (n.descendant? front).bind fun above => above.descendant? rest := by
  induction front generalizing n with
  | nil => rfl
  | cons i front ih =>
    rw [List.cons_append, descendant?, descendant?, Option.bind_assoc]
    exact congrArg _ (funext ih)

/-- Above a place that is listed, places are listed at which nothing stops. -/
theorem exists_mem_visible_above {stops : Node → Bool} {n : Node} {p : Place}
    (h : p ∈ n.visible stops) {front : List Nat} (hFront : front <+: p.path)
    (hProper : front ≠ p.path) :
    ∃ above, (⟨front, above⟩ : Place) ∈ n.visible stops ∧ stops above = false := by
  obtain ⟨hNode, hOpen⟩ := mem_visible_iff.mp h
  obtain ⟨rest, hPath⟩ := id hFront
  rw [← hPath, descendant?_append] at hNode
  obtain ⟨above, hAbove, -⟩ := Option.bind_eq_some_iff.mp hNode
  refine ⟨above, mem_visible_iff.mpr ⟨hAbove, ?_⟩, hOpen front hFront hProper above hAbove⟩
  -- what is above a part of the path is above the path
  intro higher hHigher hStrict
  refine hOpen higher (hHigher.trans hFront) ?_
  rintro rfl
  exact hStrict (hHigher.eq_of_length_le hFront.length_le)

/-- Where only nodes without children stop, every place is listed. -/
theorem visible_eq_places {stops : Node → Bool} (hStops : ∀ n, stops n = true → n.children = [])
    (n : Node) : n.visible stops = n.places := by
  induction n using Node.inductionOn with
  | step n ih =>
    rw [visible_eq, places_eq]
    congr 1
    split
    · next hStop => simp [hStops n hStop]
    · refine List.flatMap_congr fun ⟨child, i⟩ hMem => ?_
      have hChild : child ∈ n.children := List.fst_mem_of_mem_zipIdx hMem
      dsimp only
      rw [ih child hChild]

/-! ## The order in which they are listed -/

/-- A path is in front of those that go on from it. -/
theorem path_lt_of_prefix {front path : List Nat} (h : front <+: path) (hProper : front ≠ path) :
    front < path := by
  obtain ⟨rest, rfl⟩ := h
  cases rest with
  | nil => exact absurd (List.append_nil front).symm hProper
  | cons i rest => simpa using List.append_left_lt (List.nil_lt_cons i rest)

/-- Paths are listed once each: a path in front of those that go on from it, and those through
one child in front of those through the next. -/
theorem pairwise_lt_visible (stops : Node → Bool) (n : Node) :
    ((n.visible stops).map (·.path)).Pairwise (· < ·) := by
  induction n using Node.inductionOn with
  | step n ih =>
    -- children are numbered in their order
    have hNumbered : n.children.zipIdx.Pairwise fun a b => a.2 < b.2 := by
      rw [← List.pairwise_map, List.zipIdx_map_snd]
      exact List.pairwise_lt_range'
    rw [visible_eq, List.map_cons, List.pairwise_cons]
    split
    · simp
    · simp only [List.map_flatMap, List.map_map, Function.comp_def, Place.below]
      constructor
      · intro path hPath
        obtain ⟨_, -, hMem⟩ := List.mem_flatMap.mp hPath
        obtain ⟨p, -, rfl⟩ := List.mem_map.mp hMem
        exact List.nil_lt_cons _ _
      · rw [List.pairwise_flatMap]
        -- the places below one child keep their order, and those of an earlier child come first
        refine ⟨fun (child, i) hMem => ?within, hNumbered.imp fun hLess => ?across⟩
        case within =>
          have hChild := ih child (List.fst_mem_of_mem_zipIdx hMem)
          rw [List.pairwise_map] at hChild ⊢
          exact hChild.imp fun hLess => List.cons_lt_cons_iff.mpr (.inr ⟨rfl, hLess⟩)
        case across =>
          intro path hPath path' hPath'
          obtain ⟨p, -, rfl⟩ := List.mem_map.mp hPath
          obtain ⟨p', -, rfl⟩ := List.mem_map.mp hPath'
          exact List.cons_lt_cons_iff.mpr (.inl hLess)

end Node

end MessagePattern
