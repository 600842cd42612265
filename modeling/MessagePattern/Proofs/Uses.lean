import MessagePattern.Arguments
import MessagePattern.Proofs.Frames
import MessagePattern.Tree.Equality

/-!
# The uses that a survey finds

A survey of a tree is a walk, so it comes to the places of the tree in pre-order and takes note of
placeholders and pound signs. Those that have no children are noted without being descended into,
so only the other nodes can be too deep. It takes seven frames for every three levels, two for a message
and for a case and three for a placeholder, so within the usual limit it never runs out of them.

* `Element.Uses` — how a placeholder uses its argument;
* `Place.isTooDeep` — the places at which a survey with frames enough ends;
* `Node.survey_eq` — what a survey finds, and how it ends;
* `Visitor.three_mul_framesTo_argumentVisitor_le` — the frames that a survey takes;
* `Arguments.requires_ofNodes_iff`, `Arguments.mem_typesOf_ofNodes_iff` — what is known of the
  arguments that nodes use;
* `Message.survey_uses` — surveys of messages, and what is known of a message afterwards.
-/

namespace MessagePattern

/-- How a placeholder uses its argument. -/
inductive Element.Uses : Element → Use → Prop
  | simple (id : String) : Uses (.simple id) ⟨id, none, .pattern⟩
  | typed (id type : String) (style : Option String) :
    Uses (.typed id type style) ⟨id, some type, .pattern⟩
  | plural (id : String) (kind : PluralKind) (offset : Nat) (cases : List (Case Element)) :
    Uses (.plural id kind offset cases) ⟨id, some kind.name, .plural⟩
  | select (id type : String) (cases : List (Case Element)) :
    Uses (.select id type cases) ⟨id, some type, .select⟩

/-- A node is a use of an argument where it is an element that uses it. -/
theorem Node.use?_eq_some_iff {n : Node} {use : Use} :
    n.use? = some use ↔ ∃ e, n = .element e ∧ e.Uses use := by
  constructor
  · intro h
    match n, h with
    | .element (.simple id), h => exact ⟨_, rfl, Option.some.inj h ▸ .simple id⟩
    | .element (.typed id type style), h => exact ⟨_, rfl, Option.some.inj h ▸ .typed id type style⟩
    | .element (.plural id kind offset cases), h =>
      exact ⟨_, rfl, Option.some.inj h ▸ .plural id kind offset cases⟩
    | .element (.select id type cases), h =>
      exact ⟨_, rfl, Option.some.inj h ▸ .select id type cases⟩
  · rintro ⟨e, rfl, hUses⟩
    cases hUses <;> rfl

/-! ## What nodes tell of the arguments -/

namespace Arguments

/-- The uses that are found are those of the elements among the nodes. -/
theorem mem_uses_ofNodes_iff {nodes : List Node} {use : Use} :
    use ∈ (ofNodes nodes).uses ↔ ∃ n ∈ nodes, ∃ e, n = .element e ∧ e.Uses use := by
  simp only [ofNodes, List.mem_eraseDups, List.mem_filterMap, Node.use?_eq_some_iff]

/-- A name is required if an element among the nodes uses it. -/
theorem requires_ofNodes_iff {nodes : List Node} {name : String} :
    (ofNodes nodes).requires name = true ↔
      ∃ n ∈ nodes, ∃ e, n = .element e ∧ ∃ use, e.Uses use ∧ use.name = name := by
  rw [requires, List.any_eq_true]
  constructor
  · rintro ⟨use, hUse, hName⟩
    obtain ⟨n, hMem, e, hNode, hUses⟩ := mem_uses_ofNodes_iff.mp hUse
    exact ⟨n, hMem, e, hNode, use, hUses, by simpa using hName⟩
  · rintro ⟨n, hMem, e, hNode, use, hUses, hName⟩
    exact ⟨use, mem_uses_ofNodes_iff.mpr ⟨n, hMem, e, hNode, hUses⟩, by simpa using hName⟩

/-- The types of a name are those with which an element among the nodes uses it. -/
theorem mem_typesOf_ofNodes_iff {nodes : List Node} {name type : String} :
    type ∈ (ofNodes nodes).typesOf name ↔
      ∃ n ∈ nodes, ∃ e, n = .element e ∧ ∃ context, e.Uses ⟨name, some type, context⟩ := by
  rw [typesOf, List.mem_eraseDups, List.mem_filterMap]
  constructor
  · rintro ⟨⟨name', type', context⟩, hUse, hType⟩
    obtain ⟨rfl, rfl⟩ : name' = name ∧ type' = some type := by
      simpa [Option.ite_none_right_eq_some] using hType
    obtain ⟨n, hMem, e, hNode, hUses⟩ := mem_uses_ofNodes_iff.mp hUse
    exact ⟨n, hMem, e, hNode, context, hUses⟩
  · rintro ⟨n, hMem, e, hNode, context, hUses⟩
    exact ⟨_, mem_uses_ofNodes_iff.mpr ⟨n, hMem, e, hNode, hUses⟩, if_pos rfl⟩

/-- What nodes tell is told by those of them that a survey takes note of. -/
theorem ofNodes_filter_noted (nodes : List Node) :
    ofNodes (nodes.filter fun n => (argumentVisitor.handler n.kind).isSome) = ofNodes nodes := by
  -- messages, cases, texts and pound signs are handled by nothing, and tell of no argument
  have hUse : ∀ n : Node, (if (argumentVisitor.handler n.kind).isSome then n.use? else none) =
      n.use?
    | .message _ | .case _ => rfl
    | .element e => by cases e <;> rfl
  have hSelects : ∀ n : Node, ((argumentVisitor.handler n.kind).isSome &&
      (n.kind == .plural || n.kind == .select)) = (n.kind == .plural || n.kind == .select)
    | .message _ | .case _ => rfl
    | .element e => by cases e <;> rfl
  have hPound : ∀ n : Node, ((argumentVisitor.handler n.kind).isSome && n.kind == .pound) =
      (n.kind == .pound)
    | .message _ | .case _ => rfl
    | .element e => by cases e <;> rfl
  simp only [ofNodes, List.filterMap_filter, List.any_filter, hUse, hSelects, hPound]

end Arguments

/-! ## Surveys -/

/-- Whether a place is as far from the root as the limit, and is one that a survey descends into. -/
def Place.isTooDeep (limit : Int) (p : Place) : Bool :=
  [Node.Kind.message, .case, .text, .plural, .select].contains p.node.kind && limit ≤ p.distance

/-- Nothing stops the collecting visitor, so only the depth of a place is refused. -/
theorem refuses_argumentVisitor (limit : Int) :
    argumentVisitor.refuses limit = Place.isTooDeep limit := by
  have hDescends : ∀ n : Node, (!argumentVisitor.stopsAt n) =
      [Node.Kind.message, .case, .text, .plural, .select].contains n.kind
    | .message _ | .case _ => rfl
    | .element e => by cases e <;> rfl
  funext p
  rw [Visitor.refuses, Place.isTooDeep, hDescends]

/-- Where a survey does not descend there is nothing below. -/
theorem reached_argumentVisitor (n : Node) : argumentVisitor.reached n = n.places := by
  refine Node.visible_eq_places (fun n hStops => ?_) n
  match n, hStops with
  | .element (.simple _), _ | .element (.typed ..), _ | .element .pound, _ => rfl

/-- Whether there are frames enough to take note at a place of a tree. -/
def Place.isNotable (n : Node) (room : Nat) (p : Place) : Bool :=
  argumentVisitor.framesTo n p.path + argumentVisitor.handlingFrames p.node.kind ≤ room

/-- The collecting visitor notes a place where its handler is called and has frames enough. -/
theorem noted_argumentVisitor (n : Node) (room : Nat) (g : DepthGuard) (p : Place) :
    argumentVisitor.noted n room g p =
      if p.isNotable n room && (argumentVisitor.handler p.node.kind).isSome then
        [⟨p.node, g.depth + p.distance⟩]
      else [] := by
  have hPos := argumentVisitor.handlingFrames_pos p.node.kind
  -- a place is notable where the frames of its handling are left
  have hFrames : argumentVisitor.handlingFrames p.node.kind ≤
        room - argumentVisitor.framesTo n p.path ↔ p.isNotable n room = true := by
    rw [Place.isNotable, decide_eq_true_iff]
    omega
  rw [Visitor.noted, Visitor.notesAt, show argumentVisitor.notesDescents = false from rfl]
  simp only [hFrames, Bool.false_and, Bool.false_eq_true, if_false, List.append_nil]
  cases p.isNotable n room <;> simp

/-- What is noted at places tells of those at which something is noted. -/
theorem Arguments.ofNodes_flatMap {note : Place → List Sighting} {isNoted : Place → Bool}
    (h : ∀ p, (note p).map (·.node) =
      if isNoted p && (argumentVisitor.handler p.node.kind).isSome then [p.node] else [])
    (places : List Place) :
    ofNodes ((places.flatMap note).map (·.node)) =
      ofNodes ((places.filter isNoted).map (·.node)) := by
  have hNoted : (places.flatMap note).map (·.node) =
      ((places.filter isNoted).map (·.node)).filter fun n =>
        (argumentVisitor.handler n.kind).isSome := by
    -- place by place, what is noted there is its node or nothing
    induction places with
    | nil => rfl
    | cons p more ih =>
      rw [List.flatMap_cons, List.map_append, ih, h, List.filter_cons]
      cases isNoted p with
      | false => rfl
      | true =>
        rw [if_pos rfl, List.map_cons, List.filter_cons, Bool.true_and]
        split <;> rfl
  rw [hNoted, ofNodes_filter_noted]

/-- A survey tells of the places up to the first that ends it, if there are frames enough to take note
there. -/
theorem Node.survey_eq (n : Node) (room : Nat) (limit : Int) :
    n.survey room ⟨limit, 0⟩ =
      { found := .ofNodes (((Place.upTo
          (fun p => (argumentVisitor.ending n room ⟨limit, 0⟩ p).isSome) n.places).filter
            (Place.isNotable n room)).map (·.node))
        guard := ⟨limit, 0⟩
        result := match n.places.findSome? (argumentVisitor.ending n room ⟨limit, 0⟩) with
          | some why => .error why
          | none => .ok () } := by
  -- what a walk notes at a place is its node, if that is notable and handled
  have hNode : ∀ p, (argumentVisitor.noted n room ⟨limit, 0⟩ p).map (·.node) =
      if p.isNotable n room && (argumentVisitor.handler p.node.kind).isSome then [p.node]
      else [] := by
    intro p
    rw [noted_argumentVisitor]
    split <;> rfl
  rw [survey, Visitor.visit_eq_of_reached, reached_argumentVisitor]
  exact congrArg (Survey.mk · _ _) (Arguments.ofNodes_flatMap hNode _)

/-- A survey with frames enough tells of the places up to the first that is too deep. -/
theorem Node.survey_of_fits {n : Node} {room : Nat} {limit : Int}
    (h : argumentVisitor.Fits n room limit) :
    n.survey room ⟨limit, 0⟩ =
      { found := .ofNodes ((Place.upTo (Place.isTooDeep limit) n.places).map (·.node))
        guard := ⟨limit, 0⟩
        result :=
          if n.places.any (Place.isTooDeep limit) then .error (.tooDeep ⟨limit⟩) else .ok () } := by
  -- with frames enough every place is notable
  have hNode : ∀ p : Place, (argumentVisitor.notes p.node p.distance).map (·.node) =
      if true && (argumentVisitor.handler p.node.kind).isSome then [p.node] else [] := by
    intro p
    rw [Visitor.notes, show argumentVisitor.notesDescents = false from rfl, Bool.true_and]
    split <;> rfl
  have hFound := Arguments.ofNodes_flatMap hNode (Place.upTo (Place.isTooDeep limit) n.places)
  rw [List.filter_true] at hFound
  rw [survey, Visitor.visit_of_fits h, refuses_argumentVisitor, reached_argumentVisitor]
  exact congrArg (Survey.mk · _ _) hFound

/-! ## The frames of a survey -/

namespace Visitor

/-- By how much the frames above a place are more than seven for every three levels, three times over,
as far as it depends on the kind of node that the way begins with. -/
def surveyExcess : Node.Kind → Nat
  | .message => 1
  | .case => 0
  | _ => 2

/-- A child has at most the excess that the frames of its parent leave. -/
theorem descentFrames_add_surveyExcess_le {n child : Node} (hChild : child ∈ n.children) :
    3 * argumentVisitor.descentFrames n.kind + surveyExcess child.kind ≤
      7 + surveyExcess n.kind := by
  match n, hChild with
  | .message m, hChild =>
    -- an element below a message, a message below a case, a case below a placeholder
    obtain ⟨e, -, rfl⟩ := List.mem_map.mp hChild
    have hElement : surveyExcess (Node.element e).kind = 2 := by cases e <;> rfl
    rw [hElement]
    exact Nat.le_refl (3 * 2 + 2)
  | .case c, hChild =>
    obtain rfl := List.mem_singleton.mp hChild
    exact Nat.le_refl (3 * 2 + 1)
  | .element (.plural ..), hChild | .element (.select ..), hChild =>
    obtain ⟨c, -, rfl⟩ := List.mem_map.mp hChild
    exact Nat.le_refl (3 * 3)

/-- A survey takes seven frames for every three levels. -/
theorem three_mul_framesTo_argumentVisitor_le (n : Node) (path : List Nat) :
    3 * argumentVisitor.framesTo n path ≤ 7 * path.length + surveyExcess n.kind := by
  -- by induction on the path, which goes down one level at a time
  induction path generalizing n with
  | nil => exact Nat.zero_le _
  | cons i path ih =>
    rw [framesTo, List.length_cons]
    split
    · next child hChild =>
      have hBelow := ih child
      have hStep := descentFrames_add_surveyExcess_le (List.mem_of_getElem? hChild)
      omega
    · -- a path that leads nowhere adds at most one level
      have hHere : 3 * argumentVisitor.descentFrames n.kind ≤ 7 + surveyExcess n.kind := by
        cases n.kind <;> decide
      omega

/-- Collecting takes at most three frames on a level. -/
theorem takesPerLevel_argumentVisitor : argumentVisitor.TakesPerLevel 3 :=
  argumentVisitor.takesPerLevel fun kind => by cases kind <;> decide

/-- There are frames enough for a survey of a message if there are seven for every three levels that may
be entered, and those of one visit more. -/
theorem fits_argumentVisitor (m : Message) {room : Nat} {limit : Int}
    (hRoom : 7 * limit.toNat + 22 ≤ 3 * room) : argumentVisitor.Fits (.message m) room limit := by
  intro p _ hDistance
  have hAbove : 3 * argumentVisitor.framesTo (.message m) p.path ≤ 7 * p.distance + 1 :=
    three_mul_framesTo_argumentVisitor_le _ _
  have hVisit : argumentVisitor.visitFrames p.node (argumentVisitor.refuses limit p) ≤ 7 :=
    takesPerLevel_argumentVisitor.visitFrames_le _ _
  omega

end Visitor

/-! ## Messages -/

/-- The usual limit fits the stack, so the guard keeps it. -/
theorem DepthGuard.ofLimit_defaultWalkLimit :
    DepthGuard.ofLimit defaultWalkLimit = ⟨defaultWalkLimit, 0⟩ := by decide

/-- Whether an element stands anywhere in a tree. -/
def Node.Contains (n : Node) (e : Element) : Prop :=
  ∃ path, n.descendant? path = some (.element e)

/-- A node has an element at one of its places if it contains the element. -/
theorem Node.exists_place_iff {n : Node} {P : Element → Prop} :
    (∃ below ∈ n.places.map (·.node), ∃ e, below = .element e ∧ P e) ↔
      ∃ e, n.Contains e ∧ P e := by
  constructor
  · rintro ⟨below, hMem, e, hElement, hHolds⟩
    obtain ⟨p, hPlace, rfl⟩ := List.mem_map.mp hMem
    exact ⟨e, ⟨p.path, by rw [mem_places_iff.mp hPlace, hElement]⟩, hHolds⟩
  · rintro ⟨e, ⟨path, hPath⟩, hHolds⟩
    have hPlace : (⟨path, .element e⟩ : Place) ∈ n.places := mem_places_iff.mpr hPath
    exact ⟨_, List.mem_map_of_mem hPlace, e, rfl, hHolds⟩

namespace Message

/-- What is known of a message is what all of its places tell. -/
theorem arguments_eq (m : Message) :
    m.arguments =
      if (Node.message m).places.any (Place.isTooDeep defaultWalkLimit) then
        .error (.tooDeep ⟨defaultWalkLimit⟩)
      else .ok (.ofNodes ((Node.message m).places.map (·.node))) := by
  have hFits : argumentVisitor.Fits (.message m) usualRoom defaultWalkLimit :=
    Visitor.fits_argumentVisitor m (by decide)
  rw [arguments, DepthGuard.ofLimit_defaultWalkLimit, Node.survey_of_fits hFits]
  cases hDeep : (Node.message m).places.any (Place.isTooDeep defaultWalkLimit) with
  | true => rfl
  | false =>
    rw [Place.upTo_eq_self hDeep]
    rfl

/-- What the usual survey returns is found at all of the places. -/
theorem eq_ofNodes_of_arguments {m : Message} {a : Arguments} (h : m.arguments = .ok a) :
    a = .ofNodes ((Node.message m).places.map (·.node)) := by
  rw [arguments_eq] at h
  split at h
  · simp at h
  · exact (Except.ok.inj h).symm

end Message

/-- What is known of a pattern is what is known of the message that it parses to. -/
theorem PatternValue.exists_message_of_arguments {value : PatternValue} {a : Arguments}
    (h : value.arguments = .ok a) :
    ∃ m, MessagePattern.parse value = .ok m ∧ m.arguments = .ok a := by
  match value, h with
  | .text s, h =>
    rw [arguments] at h
    split at h
    · simp at h
    · next m hParse =>
      refine ⟨m, hParse, ?_⟩
      cases hArguments : m.arguments with
      | ok a' => simpa [hArguments, Except.mapError] using h
      | error e => simp [hArguments, Except.mapError] at h

namespace Arguments

/-- What is found of the arguments is what a list of places tells: the uses of its placeholders in
order, a use that comes again left out, whether there is a choice between sub-messages, and whether
there is a pound sign. -/
structure ToldBy (a : Arguments) (places : List Place) : Prop where
  uses : a.uses = (places.filterMap fun p => p.node.use?).eraseDups
  mem_uses_iff : ∀ use, use ∈ a.uses ↔ ∃ p ∈ places, ∃ e, p.node = .element e ∧ e.Uses use
  hasSelectors_iff : a.hasSelectors = true ↔
    ∃ p ∈ places, p.node.kind = .plural ∨ p.node.kind = .select
  usesPound_iff : a.usesPound = true ↔ ∃ p ∈ places, p.node.kind = .pound

/-- What is collected from the nodes of places is told by the places. -/
theorem toldBy_ofNodes (places : List Place) :
    (ofNodes (places.map (·.node))).ToldBy places where
  uses := by rw [ofNodes, List.filterMap_map]; rfl
  mem_uses_iff use := by simp only [mem_uses_ofNodes_iff, List.mem_map, exists_exists_and_eq_and]
  hasSelectors_iff := by simp [ofNodes]
  usesPound_iff := by simp [ofNodes]

end Arguments

namespace Message

/-- **A survey is exact.** It tells of the places of a message in pre-order, up to the first that ends
it, and leaves every level. With frames enough for the levels that may be entered it ends only at a
message, case, text, plural or select placeholder that is as far from the root as the limit: where there
is none it tells of all places, at every depth, and otherwise of the places up to the first one. So of
a message of which the arguments are known, whether they were asked for by the message or by its
pattern, an argument is known to be required exactly if some placeholder anywhere in the message uses
it, and its known types are those that it is used with. -/
theorem survey_uses (m : Message) (room : Nat) (limit : Int) :
    (((Node.message m).survey room ⟨limit, 0⟩).found.ToldBy
        ((Place.upTo (fun p => (argumentVisitor.ending (.message m) room ⟨limit, 0⟩ p).isSome)
          (Node.message m).places).filter (Place.isNotable (.message m) room)) ∧
      ((Node.message m).survey room ⟨limit, 0⟩).guard = ⟨limit, 0⟩ ∧
      ((Node.message m).survey room ⟨limit, 0⟩).result =
        match (Node.message m).places.findSome?
            (argumentVisitor.ending (.message m) room ⟨limit, 0⟩) with
        | some why => .error why
        | none => .ok ()) ∧
    (7 * limit.toNat + 22 ≤ 3 * room →
      ((Node.message m).survey room ⟨limit, 0⟩).found.ToldBy
          (Place.upTo (Place.isTooDeep limit) (Node.message m).places) ∧
        ((Node.message m).survey room ⟨limit, 0⟩).result =
          if (Node.message m).places.any (Place.isTooDeep limit) then .error (.tooDeep ⟨limit⟩)
          else .ok ()) ∧
    ((Node.message m).places.any (Place.isTooDeep limit) = false → ∀ p,
      p ∈ Place.upTo (Place.isTooDeep limit) (Node.message m).places ↔
        (Node.message m).descendant? p.path = some p.node) ∧
    ∀ a, (m.arguments = .ok a ∨
        ∃ value, MessagePattern.parse value = .ok m ∧ PatternValue.arguments value = .ok a) →
      (∀ name, a.requires name = true ↔
        ∃ e, (Node.message m).Contains e ∧ ∃ use, e.Uses use ∧ use.name = name) ∧
      ∀ name type, type ∈ a.typesOf name ↔
        ∃ e, (Node.message m).Contains e ∧ ∃ context, e.Uses ⟨name, some type, context⟩ := by
  refine ⟨?any, fun hRoom => ?enough, fun hShallow p => ?all, fun a hKnown => ?known⟩
  case any =>
    -- what is found is told by the places at which the walk noted something
    rw [Node.survey_eq]
    exact ⟨Arguments.toldBy_ofNodes _, rfl, rfl⟩
  case enough =>
    rw [Node.survey_of_fits (Visitor.fits_argumentVisitor m hRoom)]
    exact ⟨Arguments.toldBy_ofNodes _, rfl⟩
  case all => rw [Place.upTo_eq_self hShallow, Node.mem_places_iff]
  case known =>
    -- a pattern tells the arguments of the message that it parses to
    have hArguments : m.arguments = .ok a := by
      rcases hKnown with hMessage | ⟨value, hParse, hValue⟩
      · exact hMessage
      · obtain ⟨m', hParse', hArguments⟩ := PatternValue.exists_message_of_arguments hValue
        obtain rfl : m = m' := Except.ok.inj (hParse.symm.trans hParse')
        exact hArguments
    -- the survey has come to every place, so its nodes are those of the message
    obtain rfl := eq_ofNodes_of_arguments hArguments
    refine ⟨fun name => ?_, fun name type => ?_⟩
    · rw [Arguments.requires_ofNodes_iff, Node.exists_place_iff]
    · rw [Arguments.mem_typesOf_ofNodes_iff, Node.exists_place_iff]

/-- An argument that is used in a case and once more with a type, found at a limit that the case
does not meet. -/
theorem survey_uses_of_nested :
    MessagePattern.parse (.text "\x7bg,select,other\x7b\x7bx\x7d\x7d\x7d\x7bx,date\x7d") =
        .ok [.select "g" "select" [⟨"other", [.simple "x"]⟩], .typed "x" "date" none] ∧
      PatternValue.arguments (.text "\x7bg,select,other\x7b\x7bx\x7d\x7d\x7d\x7bx,date\x7d") =
        .ok ⟨[⟨"g", some "select", .select⟩, ⟨"x", none, .pattern⟩, ⟨"x", some "date", .pattern⟩],
          true, false⟩ ∧
      7 * (4 : Int).toNat + 22 ≤ 3 * 17 ∧
      ((Node.message [.select "g" "select" [⟨"other", [.simple "x"]⟩],
        .typed "x" "date" none]).survey 17 ⟨4, 0⟩).result = .ok () ∧
      (Node.message [.select "g" "select" [⟨"other", [.simple "x"]⟩],
        .typed "x" "date" none]).places.any (Place.isTooDeep 4) = false ∧
      (⟨[0, 0, 0, 0], .element (.simple "x")⟩ : Place) ∈ Place.upTo (Place.isTooDeep 4)
        (Node.message [.select "g" "select" [⟨"other", [.simple "x"]⟩],
          .typed "x" "date" none]).places ∧
      ∃ e, (Node.message [.select "g" "select" [⟨"other", [.simple "x"]⟩],
        .typed "x" "date" none]).Contains e ∧ ∃ context, e.Uses ⟨"x", some "date", context⟩ := by
  have hShallow : (Node.message [.select "g" "select" [⟨"other", [.simple "x"]⟩],
      .typed "x" "date" none]).places.any (Place.isTooDeep 4) = false := by decide +kernel
  refine ⟨?parsed, ?known, by decide,
    ((survey_uses _ 17 4).2.1 (by decide)).2.trans (if_neg ?finished), hShallow,
    ((survey_uses _ 17 4).2.2.1 hShallow _).mpr (by rfl),
    (((survey_uses _ 17 4).2.2.2 _ (.inr ⟨_, ?parsed, ?known⟩)).2 "x" "date").mp ?type⟩
  case parsed => decide +kernel
  case known => decide +kernel
  case finished => rw [hShallow]; exact Bool.false_ne_true
  case type => decide +kernel

-- At a lower limit the survey ends at the message in the case, where it has not come to the argument.
example :
    ((Node.message [.select "g" "select" [⟨"other", [.simple "x"]⟩], .typed "x" "date" none]).survey
      17 ⟨3, 0⟩).found = ⟨[⟨"g", some "select", .select⟩], true, false⟩ := by decide +kernel

/-- A message that nests one argument 141 deep, and another 29 deep in that, has 511 levels, and a
survey whose limit was cut down may enter 950. But every three take seven frames, so it exhausts the stack,
though nothing in the message is too deep. -/
theorem survey_nested_stackExhausted :
    (DepthGuard.ofLimit 950).limit = 950 ∧
      (Node.message (Message.nested "v" otherSelector 141
        (Message.nested "w" otherSelector 29 []))).places.any (Place.isTooDeep 950) = false ∧
      ((Node.message (Message.nested "v" otherSelector 141
        (Message.nested "w" otherSelector 29 []))).survey stackFrames.toNat
          (DepthGuard.ofLimit 950)).result = .error .stackExhausted := by
  have hShallow : (argumentVisitor.reached (.message (Message.nested "v" otherSelector 141
      (Message.nested "w" otherSelector 29 [])))).any (argumentVisitor.refuses 950) = false :=
    argumentVisitor.any_refuses_eq_false (by rw [levels_nested, levels_nested_nil]; decide)
  -- the innermost message, at which the frames no longer suffice
  have hInnermost : (⟨List.replicate (3 * 141) 0 ++ (List.replicate (3 * 29) 0 ++ []),
      .message []⟩ : Place) ∈ argumentVisitor.reached (.message (Message.nested "v" otherSelector 141
        (Message.nested "w" otherSelector 29 []))) := by
    rw [reached_argumentVisitor, Node.mem_places_iff, descendant?_nested, descendant?_nested]
    rfl
  have hLimit : DepthGuard.ofLimit 950 = ⟨950, 0⟩ := by decide
  refine ⟨by decide, ?_, ?_⟩
  · rwa [refuses_argumentVisitor, reached_argumentVisitor] at hShallow
  · rw [hLimit]
    refine Visitor.visit_stackExhausted hShallow hInnermost ?_
    rw [framesTo_nested, framesTo_nested]
    decide

end Message

end MessagePattern
