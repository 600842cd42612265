/-!
# Message trees

A message is a list of elements: literal text, the pound sign that stands for a plural number, or one
of four shapes of placeholder. Plural and select placeholders own cases, each a selector and the
message it chooses, so messages nest.

Everything that walks a tree sees it through one view. A `Node` is a message, a case or an element; its
`Label` is what it says itself, and `children` are the nodes below it, in source order. So there are
three kinds of edge: from a message to its elements, from a placeholder to its cases, and from a case
to its message.

* `Element`, `Case`, `Message` — the tree;
* `Node.children`, `Node.label` — the view;
* `Node.inductionOn` — induction along the edges;
* `Node.outline` — the labels in pre-order, each with its distance from the root and the number of its
  children.
-/

namespace MessagePattern

/-- Which family of plural categories a placeholder selects by. -/
inductive PluralKind where
  | cardinal
  | ordinal
  deriving DecidableEq, Repr, Hashable

/-- The argument type as a pattern writes it. -/
def PluralKind.name : PluralKind → String
  | .cardinal => "plural"
  | .ordinal => "selectordinal"

/-- The plural kind that a pattern writes with a given argument type. -/
def PluralKind.ofName? (name : String) : Option PluralKind :=
  if name = "plural" then some .cardinal
  else if name = "selectordinal" then some .ordinal
  else none

/-- A plural kind is told by its name. -/
theorem PluralKind.ofName?_eq_some_iff {name : String} {kind : PluralKind} :
    PluralKind.ofName? name = some kind ↔ name = kind.name := by
  cases kind <;> simp only [ofName?, PluralKind.name] <;> split <;> simp_all

/-- The argument type that selects by keyword. -/
def selectType : String := "select"

/-- The selector that stands for every value no other case names. -/
def otherSelector : String := "other"

/-- A selector and the message that it chooses, over a type of elements. -/
structure Case (ε : Type) where
  /-- The keyword, category or exact value that chooses the message. -/
  selector : String
  message : List ε

/-- A part of a message. -/
inductive Element where
  /-- Literal text, quoting resolved. -/
  | text (value : String)
  /-- The number of the plural placeholder around it. -/
  | pound
  /-- An argument without a type. -/
  | simple (id : String)
  /-- An argument with a type and, where one is given, a style. -/
  | typed (id type : String) (style : Option String)
  /-- A choice by plural category of a number, less an offset. -/
  | plural (id : String) (kind : PluralKind) (offset : Nat) (cases : List (Case Element))
  /-- A choice by keyword. Argument types of one's own that take sub-messages have this shape too. -/
  | select (id type : String) (cases : List (Case Element))

/-- The root of a pattern, and the body of every case. -/
abbrev Message := List Element

namespace Message

/-- The values of the direct text elements, joined. -/
def text (m : Message) : String :=
  String.join (m.map fun e => match e with | .text value => value | _ => "")

/-- Wraps a message a number of times in a select placeholder with this single case. -/
def nested (id selector : String) : Nat → Message → Message
  | 0, m => m
  | n + 1, m => [.select id selectType [⟨selector, nested id selector n m⟩]]

end Message

namespace Case

/-- Whether the selector names an exact value. -/
def isExact (c : Case Element) : Bool :=
  c.selector.toList.head? == some '='

/-- The message of the first case with a given selector. -/
def find? (selector : String) (cases : List (Case Element)) : Option Message :=
  (cases.find? fun c => c.selector == selector).map (·.message)

end Case

/-! ## The view -/

/-- A message, a case or an element: whatever can stand in a tree. -/
inductive Node where
  | message (m : Message)
  | case (c : Case Element)
  | element (e : Element)

namespace Node

/-- The kinds of node. -/
inductive Kind where
  | message | case | text | pound | simple | typed | plural | select
  deriving DecidableEq, Repr

/-- What a node says itself, apart from its children. -/
inductive Label where
  | message
  | case (selector : String)
  | text (value : String)
  | pound
  | simple (id : String)
  | typed (id type : String) (style : Option String)
  | plural (id : String) (kind : PluralKind) (offset : Nat)
  | select (id type : String)
  deriving DecidableEq, Repr, Hashable

/-- The kind of node that a label belongs to. -/
def Label.kind : Label → Kind
  | .message => .message
  | .case _ => .case
  | .text _ => .text
  | .pound => .pound
  | .simple _ => .simple
  | .typed .. => .typed
  | .plural .. => .plural
  | .select .. => .select

/-- What a node says itself. -/
def label : Node → Label
  | .message _ => .message
  | .case c => .case c.selector
  | .element (.text value) => .text value
  | .element .pound => .pound
  | .element (.simple id) => .simple id
  | .element (.typed id type style) => .typed id type style
  | .element (.plural id kind offset _) => .plural id kind offset
  | .element (.select id type _) => .select id type

/-- The kind of a node. -/
def kind (n : Node) : Kind := n.label.kind

/-- The nodes directly below a node, in source order. -/
def children : Node → List Node
  | .message m => m.map .element
  | .case c => [.message c.message]
  | .element (.plural _ _ _ cases) => cases.map .case
  | .element (.select _ _ cases) => cases.map .case
  | .element _ => []

/-- A child is smaller than its parent. -/
theorem sizeOf_lt_of_mem_children {child n : Node} (h : child ∈ n.children) :
    sizeOf child < sizeOf n := by
  match n with
  | .message m =>
    obtain ⟨e, he, rfl⟩ := List.mem_map.1 h
    have := List.sizeOf_lt_of_mem he
    simp only [Node.message.sizeOf_spec, Node.element.sizeOf_spec]
    omega
  | .case c =>
    obtain rfl := List.mem_singleton.1 h
    cases c
    simp only [Node.message.sizeOf_spec, Node.case.sizeOf_spec, Case.mk.sizeOf_spec]
    omega
  | .element (.plural id kind offset cases) =>
    obtain ⟨c, hc, rfl⟩ := List.mem_map.1 h
    have := List.sizeOf_lt_of_mem hc
    simp only [Node.case.sizeOf_spec, Node.element.sizeOf_spec, Element.plural.sizeOf_spec]
    omega
  | .element (.select id type cases) =>
    obtain ⟨c, hc, rfl⟩ := List.mem_map.1 h
    have := List.sizeOf_lt_of_mem hc
    simp only [Node.case.sizeOf_spec, Node.element.sizeOf_spec, Element.select.sizeOf_spec]
    omega
  | .element (.text _) | .element .pound | .element (.simple _) | .element (.typed ..) =>
    simp [children] at h

/-- A property that passes from the children of every node to the node holds of all nodes. -/
theorem inductionOn {P : Node → Prop} (n : Node)
    (step : ∀ n, (∀ child ∈ n.children, P child) → P n) : P n :=
  step n fun child _ => inductionOn child step
termination_by sizeOf n
decreasing_by exact sizeOf_lt_of_mem_children ‹_›

/-- The labels of a tree in pre-order, each with its distance from the root plus `depth` and the number
of its children. -/
def outlineFrom (depth : Nat) (n : Node) : List (Nat × Label × Nat) :=
  (depth, n.label, n.children.length) ::
    n.children.attach.flatMap fun ⟨child, _⟩ => child.outlineFrom (depth + 1)
termination_by sizeOf n
decreasing_by exact sizeOf_lt_of_mem_children ‹_›

/-- The labels of a tree in pre-order, each with its distance from the root and the number of its
children. -/
def outline (n : Node) : List (Nat × Label × Nat) := n.outlineFrom 0

end Node

end MessagePattern
