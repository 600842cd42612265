import MessagePattern.Proofs.Recorded
import MessagePattern.Proofs.Respaced
import MessagePattern.Proofs.Walkable

/-!
# Arguments in the log

What is known of the arguments of a pattern is there in its log as well. The names that are
known are names in the log, and a message that shows the plural number has a pound sign
there. The converse takes a pattern that repeats no selector, for of a message that is
overridden nothing is known. Whether there is a choice between sub-messages is seen from the
log in any case: some message is left under every selector that was repeated.

* `Token.Records.told` — what a log tells that records some marks;
* `Node.mem_marks_iff`, `Arguments.mem_names_ofNodes_iff` — names and pound signs as marks;
* `Message.WellFormed.hasSelectors_iff` — a message with a choice has a case;
* `Parser.parseInto_arguments` — the arguments of a pattern and its log.
-/

namespace MessagePattern

/-! ## What the log of a message tells -/

namespace Token

/-- What a log tells does not depend on its blanks. -/
theorem Records.told {log marks : List Token} (h : Records (unspaced log) marks []) :
    (∀ mark ∈ marks, mark ∈ log) ∧
      (∀ token ∈ log, token.kind = .selector → ∃ mark ∈ marks, mark.kind = .selector) ∧
      ((∀ list ∈ selectorLists log, list.Nodup) → marks = Token.marks log) := by
  obtain ⟨lists, hRecords⟩ := h
  refine ⟨fun mark hMark => ?_, fun token hToken hKind => ?_, fun hApart => ?_⟩
  · -- a mark is logged, and a logged selector is no blank
    exact (List.mem_filter.mp (hRecords.mem mark hMark)).1
  · refine hRecords.selects token (List.mem_filter.mpr ⟨hToken, ?_⟩) hKind
    rw [hKind]
    rfl
  · -- the lists of the braces are all but the last
    have hLists : selectorLists log = lists ++ [[]] := by
      have hScan := hRecords.scan [] [] []
      rw [List.append_nil, listsFrom_unspaced] at hScan
      exact hScan
    rw [hLists] at hApart
    rw [hRecords.exact (fun list hList => hApart list (List.mem_append_left _ hList))
      List.nodup_nil, marks_unspaced]

end Token

/-- The log of a parse tells of the message that it gives. -/
theorem Parser.records_of_parseInto {p : Parser} {pattern : PatternValue} {m : Message}
    {log : List Token} (h : p.parseInto pattern [] = (.ok m, log)) :
    Token.Records (Token.unspaced log) (Node.message m).marks [] := by
  obtain ⟨hAccepts, rfl⟩ := Parser.accepts_of_parseInto h
  exact Grammar.logsAs_message _ hAccepts

/-! ## Names, pound signs and selectors -/

namespace Node

/-- The kind of the token that the nodes of a kind leave in a log. -/
def Kind.mark? : Kind → Option Token.Kind
  | .case => some .selector
  | .pound => some .pound
  | .simple | .typed | .plural | .select => some .id
  | .message | .text => none

/-- Only cases leave selectors. -/
theorem Kind.mark?_eq_selector_iff {kind : Kind} :
    kind.mark? = some .selector ↔ kind = .case := by
  cases kind <;> decide

/-- Only pound signs leave pound signs. -/
theorem Kind.mark?_eq_pound_iff {kind : Kind} : kind.mark? = some .pound ↔ kind = .pound := by
  cases kind <;> decide

/-- The kind of the mark that a node leaves is told by the kind of the node. -/
theorem map_kind_token? : ∀ n : Node, n.token?.map (·.kind) = n.kind.mark?
  | .message _ | .case _ => rfl
  | .element e => by cases e <;> rfl

/-- The marks of a tree are those that its nodes leave. -/
theorem mem_marks_iff {n : Node} {mark : Token} :
    mark ∈ n.marks ↔ ∃ below ∈ n.places.map (·.node), below.token? = some mark :=
  List.mem_filterMap

/-- A tree has a mark of a kind if it has a node that leaves one. -/
theorem exists_mark_iff {n : Node} {kind : Token.Kind} :
    (∃ mark ∈ n.marks, mark.kind = kind) ↔
      ∃ below ∈ n.places.map (·.node), below.kind.mark? = some kind := by
  simp only [← map_kind_token?, Option.map_eq_some_iff, mem_marks_iff]
  constructor
  · rintro ⟨mark, ⟨below, hNode, hMark⟩, hKind⟩
    exact ⟨below, hNode, mark, hMark, hKind⟩
  · rintro ⟨below, hNode, mark, hMark, hKind⟩
    exact ⟨mark, ⟨below, hNode, hMark⟩, hKind⟩

/-- A node leaves a name where it is a use of that name. -/
theorem token?_eq_id_iff {n : Node} {name : String} :
    n.token? = some ⟨.id, name⟩ ↔ ∃ use, n.use? = some use ∧ use.name = name := by
  match n with
  | .message _ | .case _ => simp [token?, use?, label]
  | .element e => cases e <;> simp [token?, use?, label]

end Node

/-- The names that a tree tells are those of its marks. -/
theorem Arguments.mem_names_ofNodes_iff {n : Node} {name : String} :
    name ∈ (ofNodes (n.places.map (·.node))).names ↔ ⟨.id, name⟩ ∈ n.marks := by
  rw [names, List.mem_eraseDups, List.mem_map, Node.mem_marks_iff]
  simp only [ofNodes, List.mem_eraseDups, List.mem_filterMap, Node.token?_eq_id_iff]
  constructor
  · rintro ⟨use, ⟨below, hNode, hUse⟩, hName⟩
    exact ⟨below, hNode, use, hUse, hName⟩
  · rintro ⟨below, hNode, use, hUse, hName⟩
    exact ⟨use, ⟨below, hNode, hUse⟩, hName⟩

/-- A pound sign is found where the tree has one among its marks. -/
theorem Arguments.usesPound_ofNodes_iff {n : Node} :
    (ofNodes (n.places.map (·.node))).usesPound = true ↔
      ∃ mark ∈ n.marks, mark.kind = .pound := by
  simp [Node.exists_mark_iff, Node.Kind.mark?_eq_pound_iff, ofNodes]

/-- An element of a message chooses between sub-messages exactly if there is a case in it. -/
theorem Element.WellFormed.exists_choice_iff {inBraces : Bool → Message → Prop} {b : Bool}
    {e : Element} (h : e.WellFormed inBraces b) :
    (∃ n ∈ (Node.element e).places.map (·.node), n.kind = .plural ∨ n.kind = .select) ↔
      ∃ n ∈ (Node.element e).places.map (·.node), n.kind = .case := by
  rw [Node.map_node_places]
  -- a placeholder that takes a level has a case below it
  have hCase : (Node.element e).takesLevel = true →
      ∃ n ∈ Node.element e :: (Node.element e).children.flatMap fun child =>
        child.places.map (·.node), n.kind = .case := by
    intro hTakes
    obtain ⟨child, hChild⟩ := List.exists_mem_of_ne_nil _ (h.children_ne_nil hTakes)
    obtain ⟨c, -, rfl, -⟩ := h.exists_case hChild
    refine ⟨.case c, List.mem_cons_of_mem _ (List.mem_flatMap.mpr ⟨_, hChild, ?_⟩), rfl⟩
    rw [Node.map_node_places]
    exact List.mem_cons_self ..
  -- only placeholders with cases choose, and nothing is below the others
  cases e with
  | plural id kind offset cases =>
    exact iff_of_true ⟨_, List.mem_cons_self .., .inl rfl⟩ (hCase rfl)
  | select id type cases => exact iff_of_true ⟨_, List.mem_cons_self .., .inr rfl⟩ (hCase rfl)
  | _ => simp [Node.children, Node.kind, Node.label, Node.Label.kind]

namespace Message

/-- Below the root, the nodes of a message are those of its elements. -/
theorem exists_node_iff {m : Message} {P : Node → Prop} (hRoot : ¬P (.message m)) :
    (∃ n ∈ (Node.message m).places.map (·.node), P n) ↔
      ∃ e ∈ m, ∃ n ∈ (Node.element e).places.map (·.node), P n := by
  rw [Node.map_node_places]
  show (∃ n ∈ .message m :: (m.map Node.element).flatMap _, P n) ↔ _
  rw [List.flatMap_map]
  constructor
  · -- the node is not the message itself, so it is below one of its elements
    rintro ⟨n, hNode, hHolds⟩
    rcases List.mem_cons.mp hNode with rfl | hBelow
    · exact absurd hHolds hRoot
    · obtain ⟨e, hElement, hNode⟩ := List.mem_flatMap.mp hBelow
      exact ⟨e, hElement, n, hNode, hHolds⟩
  · rintro ⟨e, hElement, n, hNode, hHolds⟩
    exact ⟨n, List.mem_cons_of_mem _ (List.mem_flatMap.mpr ⟨e, hElement, hNode⟩), hHolds⟩

/-- A well-formed message chooses between sub-messages exactly if there is a case in it. -/
theorem WellFormed.hasSelectors_iff {nesting : Nat} {b : Bool} {m : Message}
    (h : m.WellFormed nesting b) :
    (Arguments.ofNodes ((Node.message m).places.map (·.node))).hasSelectors = true ↔
      ∃ mark ∈ (Node.message m).marks, mark.kind = .selector := by
  -- a choice is a plural or a select placeholder, and a selector is left by a case
  have hChoice : (Arguments.ofNodes ((Node.message m).places.map (·.node))).hasSelectors = true ↔
      ∃ n ∈ (Node.message m).places.map (·.node), n.kind = .plural ∨ n.kind = .select := by
    simp [Arguments.ofNodes]
  have hCase : (∃ mark ∈ (Node.message m).marks, mark.kind = .selector) ↔
      ∃ n ∈ (Node.message m).places.map (·.node), n.kind = .case := by
    simp only [Node.exists_mark_iff, Node.Kind.mark?_eq_selector_iff]
  rw [hChoice, hCase, exists_node_iff (by simp [Node.kind, Node.label, Node.Label.kind]),
    exists_node_iff (by simp [Node.kind, Node.label, Node.Label.kind])]
  -- the elements are well-formed whether or not anything may nest in them
  refine exists_congr fun e => and_congr_right fun hElement => ?_
  cases nesting with
  | zero => exact (h.element e hElement).exists_choice_iff
  | succ nesting => exact (h.element e hElement).exists_choice_iff

end Message

/-! ## Parses -/

namespace Parser

/-- **The arguments of a pattern are those of its log.** Of a pattern that parses within the
usual limits the arguments are known, and its log bears them out: there is a choice between
sub-messages exactly if a selector was read, each name that is known was read as one, and the
plural number is shown only if a pound sign was read that stands for it. The log may tell of
more, as a message is overridden by the next one under its selector; but where no selector
comes twice in the same braces, the names that are known are just the names that were read,
and the plural number is shown if there is a pound sign. -/
theorem parseInto_arguments (pattern : PatternValue) (m : Message) (log : List Token)
    (h : ({} : Parser).parseInto pattern [] = (.ok m, log)) :
    ∃ a, m.arguments = .ok a ∧
      (a.hasSelectors = true ↔ ∃ token ∈ log, token.kind = .selector) ∧
      (∀ name ∈ a.names, ⟨.id, name⟩ ∈ log) ∧
      (a.usesPound = true → ∃ token ∈ log, token.kind = .pound) ∧
      ((∀ list ∈ Token.selectorLists log, list.Nodup) →
        (∀ name, name ∈ a.names ↔ ⟨.id, name⟩ ∈ log) ∧
          (a.usesPound = true ↔ ∃ token ∈ log, token.kind = .pound)) := by
  have hWell := (derives_of_parse (congrArg Prod.fst h)).wellFormed
  -- what is parsed by the default parser is surveyed under the usual limit
  obtain ⟨a, hArguments⟩ := hWell.exists_arguments (by decide)
  -- the log tells no less than the tree
  obtain ⟨hFound, hSelects, hExact⟩ := (records_of_parseInto h).told
  refine ⟨a, hArguments, ?_⟩
  obtain rfl := Message.eq_ofNodes_of_arguments hArguments
  refine ⟨?selectors, fun name hName => ?names, fun hPound => ?pound,
    fun hApart => ⟨fun name => ?allNames, ?allPounds⟩⟩
  case selectors =>
    rw [hWell.hasSelectors_iff]
    constructor
    · rintro ⟨mark, hMark, hKind⟩
      exact ⟨mark, hFound mark hMark, hKind⟩
    · -- the message that stood there may be overridden, but then another case is left
      rintro ⟨token, hToken, hKind⟩
      exact hSelects token hToken hKind
  case names => exact hFound _ (Arguments.mem_names_ofNodes_iff.mp hName)
  case pound =>
    obtain ⟨mark, hMark, hKind⟩ := Arguments.usesPound_ofNodes_iff.mp hPound
    exact ⟨mark, hFound mark hMark, hKind⟩
  case allNames =>
    -- without repetitions the marks of the tree are those of the log
    rw [Arguments.mem_names_ofNodes_iff, hExact hApart]
    exact Token.mem_marks_iff.trans (and_iff_left rfl)
  case allPounds =>
    rw [Arguments.usesPound_ofNodes_iff, hExact hApart]
    refine exists_congr fun token => and_congr_left fun hKind => ?_
    rw [Token.mem_marks_iff, Token.isMark, hKind]
    exact and_iff_left rfl

/-- The log of a plural placeholder whose case shows the number and a further argument. -/
def logOfPlural : List Token :=
  [⟨.openBrace, "\x7b"⟩, ⟨.id, "n"⟩, ⟨.comma, ","⟩, ⟨.type, "plural"⟩, ⟨.comma, ","⟩,
    ⟨.selector, "other"⟩, ⟨.openBrace, "\x7b"⟩, ⟨.pound, "#"⟩, ⟨.openBrace, "\x7b"⟩,
    ⟨.id, "x"⟩, ⟨.closeBrace, "\x7d"⟩, ⟨.closeBrace, "\x7d"⟩, ⟨.closeBrace, "\x7d"⟩]

/-- No selector is repeated, so the arguments are those of the log. -/
theorem parseInto_arguments_of_plural :
    ({} : Parser).parseInto (.text "\x7bn,plural,other\x7b#\x7bx\x7d\x7d\x7d") [] =
        (.ok [.plural "n" .cardinal 0 [⟨"other", [.pound, .simple "x"]⟩]], logOfPlural) ∧
      (∀ list ∈ Token.selectorLists logOfPlural, list.Nodup) ∧
      ∃ a, Message.arguments [.plural "n" .cardinal 0 [⟨"other", [.pound, .simple "x"]⟩]] = .ok a ∧
        a.hasSelectors = true ∧ (∀ name, name ∈ a.names ↔ ⟨.id, name⟩ ∈ logOfPlural) ∧
        a.usesPound = true := by
  have hParse : ({} : Parser).parseInto (.text "\x7bn,plural,other\x7b#\x7bx\x7d\x7d\x7d") [] =
      (.ok [.plural "n" .cardinal 0 [⟨"other", [.pound, .simple "x"]⟩]], logOfPlural) := by
    decide +kernel
  have hApart : ∀ list ∈ Token.selectorLists logOfPlural, list.Nodup := by decide +kernel
  obtain ⟨a, hArguments, hSelectors, -, -, hExact⟩ := parseInto_arguments _ _ _ hParse
  obtain ⟨hNames, hPound⟩ := hExact hApart
  exact ⟨hParse, hApart, a, hArguments, hSelectors.mpr ⟨⟨.selector, "other"⟩, by decide, rfl⟩,
    hNames, hPound.mpr ⟨⟨.pound, "#"⟩, by decide, rfl⟩⟩

-- The first message is overridden, so its argument is a name in the log and is not known.
example :
    ({} : Parser).parseInto (.text "\x7bn,plural,other\x7b\x7bx\x7d\x7dother\x7b\x7d\x7d") [] =
        (.ok [.plural "n" .cardinal 0 [⟨"other", []⟩]],
          [⟨.openBrace, "\x7b"⟩, ⟨.id, "n"⟩, ⟨.comma, ","⟩, ⟨.type, "plural"⟩, ⟨.comma, ","⟩,
            ⟨.selector, "other"⟩, ⟨.openBrace, "\x7b"⟩, ⟨.openBrace, "\x7b"⟩, ⟨.id, "x"⟩,
            ⟨.closeBrace, "\x7d"⟩, ⟨.closeBrace, "\x7d"⟩, ⟨.selector, "other"⟩,
            ⟨.openBrace, "\x7b"⟩, ⟨.closeBrace, "\x7d"⟩, ⟨.closeBrace, "\x7d"⟩]) ∧
      Message.arguments [.plural "n" .cardinal 0 [⟨"other", []⟩]] =
        .ok ⟨[⟨"n", some "plural", .plural⟩], true, false⟩ := by decide +kernel

end Parser

end MessagePattern
