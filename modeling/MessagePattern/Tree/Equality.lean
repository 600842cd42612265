import MessagePattern.Tree.Basic

/-!
# Equality of trees

Two nodes are equal when they have the same label and, one by one, equal children. Running that test
down both trees decides equality.

* `Node.eq_iff` — a node is its label and its children;
* `Node.same_iff` — the test says yes exactly on equal nodes.
-/

namespace MessagePattern.Node

private theorem map_element_inj {m m' : Message} :
    m.map Node.element = m'.map Node.element ↔ m = m' :=
  List.map_inj_right fun _ _ => Node.element.inj

private theorem map_case_inj {cases cases' : List (Case Element)} :
    cases.map Node.case = cases'.map Node.case ↔ cases = cases' :=
  List.map_inj_right fun _ _ => Node.case.inj

/-- A node is determined by its label and its children. -/
theorem eq_iff {a b : Node} : a = b ↔ a.label = b.label ∧ a.children = b.children := by
  refine ⟨fun h => h ▸ ⟨rfl, rfl⟩, fun ⟨sameLabel, sameChildren⟩ => ?_⟩
  match a, b with
  | .message _, .message _ => simpa [children, map_element_inj] using sameChildren
  | .case ⟨s, m⟩, .case ⟨s', m'⟩ => simp_all [label, children]
  | .element e, .element e' =>
    cases e <;> cases e' <;> simp_all [label, children, map_case_inj]
  | .message _, .case _ | .case _, .message _ => simp [label] at sameLabel
  | .message _, .element e | .case _, .element e | .element e, .message _ | .element e, .case _ =>
    cases e <;> simp [label] at sameLabel

/-- Whether two trees agree label by label. -/
def same (a b : Node) : Bool :=
  a.label == b.label && a.children.length == b.children.length &&
    (a.children.attach.zip b.children).all fun pair => pair.1.val.same pair.2
termination_by sizeOf a
decreasing_by exact sizeOf_lt_of_mem_children pair.1.property

private theorem zip_all_iff {test : Node → Node → Bool} : ∀ {l l' : List Node},
    l.length = l'.length → (∀ a ∈ l, ∀ b, test a b = true ↔ a = b) →
    ((l.zip l').all (fun pair => test pair.1 pair.2) = true ↔ l = l')
  | [], [], _, _ => by simp
  | a :: l, b :: l', hlen, h => by
    have rest : (l.zip l').all (fun pair => test pair.1 pair.2) = true ↔ l = l' :=
      zip_all_iff (by simpa using hlen) fun x hx => h x (by simp [hx])
    simp [h a (by simp), rest]

/-- The label by label test decides equality. -/
theorem same_iff (a b : Node) : a.same b = true ↔ a = b := by
  induction a using Node.inductionOn generalizing b with
  | step a ih =>
    rw [same, eq_iff]
    by_cases hlen : a.children.length = b.children.length
    · have key : ((a.children.attach.zip b.children).all fun pair => pair.1.val.same pair.2) =
          (a.children.zip b.children).all fun pair => pair.1.same pair.2 := by
        conv => rhs; rw [← List.attach_map_subtype_val a.children, List.zip_map_left]
        simp [List.all_map, Function.comp_def]
      simp [key, hlen, zip_all_iff hlen ih]
    · have : a.children ≠ b.children := fun h => hlen (congrArg List.length h)
      simp [hlen, this]

instance : DecidableEq Node := fun a b => decidable_of_iff _ (same_iff a b)

instance : DecidableEq Element := fun a b =>
  decidable_of_iff (element a = element b) ⟨Node.element.inj, congrArg _⟩

instance : DecidableEq (Case Element) := fun a b =>
  decidable_of_iff (case a = case b) ⟨Node.case.inj, congrArg _⟩

end MessagePattern.Node
