import MessagePattern.Proofs.Places
import MessagePattern.Proofs.Unspaced

/-!
# The tree in the log

What a tree tells of its arguments can be looked for in the log of its pattern. A placeholder
has left its name there, a pound sign its token, and a case its selector. But a selector that
is repeated keeps the last of its messages only, and the log tells of all of them; so the
tree tells no more than the log, and where no selector is repeated it tells the same, in the
same order.

The braces of a log tell which selectors belong to one placeholder: those that stand in its
braces, but not in braces further in.

* `Token.selectorLists` — the lists of selectors of a log, one for each pair of braces;
* `Node.marks`, `Token.marks` — names, selectors and pound signs, of a tree and of a log;
* `Token.Records` — the log tells no less than the tree, and the same without repetitions;
* `Reader.LogsAs` — how what a reader logs is bound to its value;
* `Grammar.logsAs_message` — the log of a message records the message.
-/

namespace MessagePattern

/-! ## What a log tells -/

namespace Token

/-- The lists of selectors of a log, one for each pair of braces, and one each for those that
are open at the end. The selectors of the innermost open braces are collected in `inner`, those
of the braces around them in `outer`. -/
def listsFrom (inner : List String) (outer : List (List String)) :
    List Token → List (List String)
  | [] => inner :: outer
  | token :: log =>
    match token.kind with
    | .openBrace => listsFrom [] (inner :: outer) log
    | .closeBrace => inner :: listsFrom (outer.headD []) outer.tail log
    | .selector => listsFrom (inner ++ [token.text]) outer log
    | _ => listsFrom inner outer log

/-- The lists of selectors of a log: for each pair of braces, the selectors that stand in them
and not in braces further in; and those outside of all braces. -/
def selectorLists (log : List Token) : List (List String) := listsFrom [] [] log

/-- Whether a token is one that a tree tells of: a name, a selector or a pound sign. -/
def isMark (token : Token) : Bool := [Kind.id, .selector, .pound].contains token.kind

/-- The names, selectors and pound signs of a log. -/
def marks (log : List Token) : List Token := log.filter isMark

/-- The marks of a log are its tokens that are marks. -/
theorem mem_marks_iff {token : Token} {log : List Token} :
    token ∈ marks log ↔ token ∈ log ∧ token.isMark = true := List.mem_filter

@[simp] theorem marks_append (log more : List Token) :
    marks (log ++ more) = marks log ++ marks more := List.filter_append ..

/-- Blanks have no part in the lists of selectors. -/
theorem listsFrom_unspaced (inner : List String) (outer : List (List String))
    (log : List Token) : listsFrom inner outer (unspaced log) = listsFrom inner outer log := by
  induction log generalizing inner outer with
  | nil => rfl
  | cons token log ih =>
    obtain ⟨kind, text⟩ := token
    cases kind with
    | space => exact ih inner outer
    | openBrace => exact ih [] (inner :: outer)
    | closeBrace => exact congrArg (inner :: ·) (ih _ _)
    | selector => exact ih (inner ++ [text]) outer
    | _ => exact ih inner outer

/-- Blanks are no marks. -/
theorem marks_unspaced (log : List Token) : marks (unspaced log) = marks log := by
  unfold marks unspaced
  rw [List.filter_filter]
  refine List.filter_congr fun token _ => ?_
  obtain ⟨kind, text⟩ := token
  cases kind <;> rfl

end Token

/-! ## What a tree tells -/

namespace Node

/-- The token that a node has left in the log of its pattern: a placeholder its name, a case
its selector, a pound sign itself. -/
def token? : Node → Option Token
  | .case c => some ⟨.selector, c.selector⟩
  | .element .pound => some ⟨.pound, "#"⟩
  | .element (.simple id) | .element (.typed id ..) | .element (.plural id ..)
  | .element (.select id ..) => some ⟨.id, id⟩
  | .message _ | .element (.text _) => none

/-- The tokens that the nodes of a tree have left, in pre-order. -/
def marks (n : Node) : List Token := (n.places.map (·.node)).filterMap token?

/-- The marks of a tree are that of its root and those of its children. -/
theorem marks_eq (n : Node) : n.marks = n.token?.toList ++ n.children.flatMap marks := by
  unfold marks
  rw [map_node_places, List.filterMap_cons, List.filterMap_flatMap]
  cases n.token? <;> rfl

end Node

/-- The marks of a message are those of its elements. -/
theorem Message.marks_eq (m : Message) :
    (Node.message m).marks = m.flatMap fun e => (Node.element e).marks := by
  rw [Node.marks_eq]
  show (m.map Node.element).flatMap Node.marks = _
  rw [List.flatMap_map]

/-- The marks of a case are its selector and those of its message. -/
theorem Case.marks_eq (c : Case Element) :
    (Node.case c).marks = ⟨.selector, c.selector⟩ :: (Node.message c.message).marks := by
  rw [Node.marks_eq]
  show _ :: ([Node.message c.message].flatMap Node.marks) = _
  rw [List.flatMap_singleton]

/-- The marks of cases, one after another. -/
def Case.allMarks (cases : List (Case Element)) : List Token :=
  cases.flatMap fun c => (Node.case c).marks

/-! ## A log that records a tree -/

namespace Token

/-- A log tells of these marks and of no others, apart from cases that are overridden: it holds
every mark, and a selector only if some mark is one; and if no list of selectors has a
repetition, neither those of the braces in the log nor the selectors outside of them, then its
marks are these. -/
structure RecordsIn (lists : List (List String)) (log marks : List Token)
    (selectors : List String) : Prop where
  /-- In a longer log the lists are found in front, and the selectors in the braces around. -/
  scan : ∀ inner outer more, listsFrom inner outer (log ++ more) =
    lists ++ listsFrom (inner ++ selectors) outer more
  mem : ∀ mark ∈ marks, mark ∈ log
  selects : ∀ token ∈ log, token.kind = .selector → ∃ mark ∈ marks, mark.kind = .selector
  exact : (∀ list ∈ lists, list.Nodup) → selectors.Nodup → marks = Token.marks log

/-- A log tells of these marks, and has these selectors outside of its braces. -/
def Records (log marks : List Token) (selectors : List String) : Prop :=
  ∃ lists, RecordsIn lists log marks selectors

theorem records_nil : Records [] [] [] :=
  ⟨[], fun inner _ _ => by simp, by simp, by simp, fun _ _ => rfl⟩

/-- A token that is no brace is recorded for itself. -/
theorem records_token {token : Token} (hOpen : token.kind ≠ .openBrace)
    (hClose : token.kind ≠ .closeBrace) :
    Records [token] (marks [token]) (if token.kind = .selector then [token.text] else []) := by
  obtain ⟨kind, text⟩ := token
  refine ⟨[], fun inner outer more => ?_, fun mark hMark => (List.mem_filter.mp hMark).1,
    fun found hFound hKind => ?_, fun _ _ => rfl⟩
  · -- what the token does to the lists is told by its kind
    cases kind with
    | openBrace => exact absurd rfl hOpen
    | closeBrace => exact absurd rfl hClose
    | selector => rfl
    | _ => exact congrArg (listsFrom · outer more) (List.append_nil inner).symm
  · obtain rfl := List.mem_singleton.mp hFound
    obtain rfl : kind = .selector := hKind
    exact ⟨_, List.mem_singleton.mpr rfl, rfl⟩

/-- Two logs in a row tell what each of them tells. -/
theorem Records.append {log log' marks marks' : List Token} {selectors selectors' : List String}
    (h : Records log marks selectors) (h' : Records log' marks' selectors') :
    Records (log ++ log') (marks ++ marks') (selectors ++ selectors') := by
  obtain ⟨lists, hFirst⟩ := h
  obtain ⟨lists', hSecond⟩ := h'
  refine ⟨lists ++ lists', fun inner outer more => ?_, fun mark hMark => ?_,
    fun token hToken hKind => ?_, fun hLists hSelectors => ?_⟩
  · -- the lists, the marks in the log, the selectors among the marks, and the marks without repetitions
    rw [List.append_assoc, hFirst.scan, hSecond.scan, List.append_assoc, List.append_assoc]
  · exact List.mem_append.mpr ((List.mem_append.mp hMark).imp (hFirst.mem mark)
      (hSecond.mem mark))
  · rcases List.mem_append.mp hToken with hHere | hThere
    · obtain ⟨mark, hMark, hFound⟩ := hFirst.selects token hHere hKind
      exact ⟨mark, List.mem_append_left _ hMark, hFound⟩
    · obtain ⟨mark, hMark, hFound⟩ := hSecond.selects token hThere hKind
      exact ⟨mark, List.mem_append_right _ hMark, hFound⟩
  · -- if the selectors of both are distinct, so are those of each
    obtain ⟨hNodup, hNodup', -⟩ := List.nodup_append.mp hSelectors
    rw [hFirst.exact (fun list hList => hLists list (List.mem_append_left _ hList)) hNodup,
      hSecond.exact (fun list hList => hLists list (List.mem_append_right _ hList)) hNodup',
      marks_append]

/-- A log up to the closing brace of the braces that it stands in. -/
def RecordsClosed (log marks : List Token) : Prop :=
  ∃ front close selectors, log = front ++ [close] ∧ close.kind = .closeBrace ∧
    Records front marks selectors

/-- A closing brace ends the list of the selectors before it. -/
theorem Records.closed {log marks : List Token} {selectors : List String}
    (h : Records log marks selectors) {close : Token} (hClose : close.kind = .closeBrace) :
    RecordsClosed (log ++ [close]) marks :=
  ⟨log, close, selectors, rfl, hClose, h⟩

/-- With its opening brace a log has no selectors left outside of its braces. -/
theorem RecordsClosed.bracketed {log marks : List Token} (h : RecordsClosed log marks)
    {brace : Token} (hOpen : brace.kind = .openBrace) : Records (brace :: log) marks [] := by
  obtain ⟨front, close, selectors, rfl, hClose, lists, hFront⟩ := h
  -- an opening brace begins a list, and a closing brace gives the list back
  have hOpens : ∀ inner outer more, listsFrom inner outer (brace :: more) =
      listsFrom [] (inner :: outer) more := fun inner outer more => by
    rw [listsFrom, hOpen]
  have hCloses : ∀ inner outer more, listsFrom inner outer (close :: more) =
      inner :: listsFrom (outer.headD []) outer.tail more := fun inner outer more => by
    rw [listsFrom, hClose]
  -- neither brace is a mark
  have hNoMark : ∀ {token : Token}, token.kind = .openBrace ∨ token.kind = .closeBrace →
      token.isMark = false := by
    rintro ⟨kind, text⟩ (rfl | rfl) <;> rfl
  refine ⟨lists ++ [selectors], fun inner outer more => ?_, fun mark hMark => ?_,
    fun token hToken hKind => ?_, fun hLists _ => ?_⟩
  · -- the selectors are those of the list that the closing brace ends
    rw [List.cons_append, hOpens, List.append_assoc, hFront.scan, List.singleton_append, hCloses]
    simp
  · exact List.mem_cons_of_mem _ (List.mem_append_left _ (hFront.mem mark hMark))
  · -- a selector is neither of the two braces
    have hInside : token ∈ front := by
      rcases List.mem_cons.mp hToken with rfl | hMore
      · exact absurd (hOpen.symm.trans hKind) (by decide)
      · rcases List.mem_append.mp hMore with hInside | hLast
        · exact hInside
        · obtain rfl := List.mem_singleton.mp hLast
          exact absurd (hClose.symm.trans hKind) (by decide)
    exact hFront.selects token hInside hKind
  · rw [hFront.exact (fun list hList => hLists list (List.mem_append_left _ hList))
      (hLists selectors (by simp))]
    unfold Token.marks
    rw [List.filter_cons_of_neg (by simp [hNoMark (.inl hOpen)]), List.filter_append,
      List.filter_cons_of_neg (by simp [hNoMark (.inr hClose)]), List.filter_nil,
      List.append_nil]

/-- What a log tells of all of the entries of a list, it tells of the cases that they are merged
to: a selector that is repeated has messages that no case has. -/
theorem Records.merged {log : List Token} {entries : List (String × Message)}
    (h : Records log (Case.allMarks (entries.map fun entry => ⟨entry.1, entry.2⟩))
      (entries.map (·.1))) :
    Records log (Case.allMarks (Declared.merged entries)) (entries.map (·.1)) := by
  obtain ⟨lists, hAll⟩ := h
  refine ⟨lists, hAll.scan, fun mark hMark => ?_, fun token hToken hKind => ?_,
    fun hLists hSelectors => ?_⟩
  · -- each case is that of an entry
    obtain ⟨c, hCase, hHere⟩ := List.mem_flatMap.mp hMark
    have hEntry := Declared.mem_of_mem_merged hCase
    exact hAll.mem mark (List.mem_flatMap.mpr ⟨c, List.mem_map.mpr ⟨_, hEntry, rfl⟩, hHere⟩)
  · -- where there is an entry there is a case
    obtain ⟨mark, hMark, -⟩ := hAll.selects token hToken hKind
    have hSome : entries ≠ [] := by
      rintro rfl
      simp [Case.allMarks] at hMark
    obtain ⟨c, hCase⟩ := List.exists_mem_of_ne_nil _ (Declared.merged_ne_nil hSome)
    refine ⟨⟨.selector, c.selector⟩, List.mem_flatMap.mpr ⟨c, hCase, ?_⟩, rfl⟩
    rw [Case.marks_eq]
    exact List.mem_cons_self ..
  · rw [← hAll.exact hLists hSelectors, Declared.merged_eq_collapse,
      Keyed.collapse_of_nodup hSelectors]

end Token

/-! ## Readers and their logs -/

namespace Reader

variable {α β : Type}

/-- What a reader logs, apart from blanks, is bound to the value that it gives. -/
def LogsAs (p : Reader α) (P : α → List Token → Prop) : Prop :=
  ∀ ⦃s a t⦄, p.Accepts s a t → P a (Token.unspaced (p.run s).tokens)

/-- What a sequence logs is bound to its value through the value of the first reader. -/
theorem LogsAs.bind {p : Reader α} {next : α → Reader β} {P : α → List Token → Prop}
    {Q : β → List Token → Prop} (hFirst : p.LogsAs P)
    (hNext : ∀ a log, P a log → (next a).LogsAs fun b more => Q b (log ++ more)) :
    (p >>= next).LogsAs Q := by
  intro s b t hAccepts
  obtain ⟨a, u, hHere, hThere⟩ := accepts_bind.mp hAccepts
  rw [unspaced_run_bind hHere]
  exact hNext a _ (hFirst hHere) hThere

/-- What logs nothing has no part in what is logged. -/
theorem LogsAs.bind_nothing {p : Reader α} {next : α → Reader β} {Q : β → List Token → Prop}
    (hFirst : p.LogsAs fun _ log => log = []) (hNext : ∀ a, (next a).LogsAs Q) :
    (p >>= next).LogsAs Q := by
  refine hFirst.bind fun a log hNone => ?_
  subst hNone
  exact hNext a

/-- A silent reader logs nothing. -/
theorem logsAs_of_silent {p : Reader α} (h : p.Silent) : p.LogsAs fun _ log => log = [] := by
  intro s a t _
  rw [h s]
  rfl

theorem logsAs_pure {a : α} {P : α → List Token → Prop} (h : P a []) :
    (pure a : Reader α).LogsAs P := by
  intro s b t hAccepts
  obtain ⟨rfl, -⟩ := accepts_pure.mp hAccepts
  exact h

theorem logsAs_checked {node : Except NodeError α} {P : α → List Token → Prop}
    (h : ∀ a, node = .ok a → P a []) : (checked node).LogsAs P := by
  intro s a t hAccepts
  rw [silent_checked]
  exact h a (accepts_checked.mp hAccepts).1

/-- Blanks are left out of what is logged. -/
theorem logsAs_space : space.LogsAs fun _ log => log = [] := fun s _ _ _ => unspaced_run_space s

/-- A token that is taken is what is logged. -/
theorem logsAs_take {kind : Token.Kind} (hKind : kind ≠ .space) :
    (take kind).LogsAs fun _ log => ∃ text, log = [⟨kind, text⟩] := by
  intro s u t hAccepts
  obtain ⟨c, rfl⟩ := accepts_take.mp hAccepts
  rw [run_take_cons, Token.unspaced_cons hKind]
  exact ⟨_, rfl⟩

/-- A demanded character is what is logged. -/
theorem logsAs_demand (c : Char) {kind : Token.Kind} (hKind : kind ≠ .space)
    (what : Expectation) :
    (demand c kind what).LogsAs fun _ log => log = [⟨kind, String.ofList [c]⟩] := by
  intro s u t hAccepts
  obtain rfl := accepts_demand.mp hAccepts
  rw [run_demand_cons, Token.unspaced_cons hKind]
  rfl

theorem logsAs_name {kind : Token.Kind} (hKind : kind ≠ .space) (what : Expectation) :
    (name kind what).LogsAs fun w log => log = [⟨kind, w⟩] := by
  intro s w t hAccepts
  rw [tokens_run_name hAccepts, Token.unspaced_cons hKind]
  rfl

/-- What holds of the log of each member, and passes from a log to the log before it, holds of
the log of a list. -/
theorem logsAs_untilClose {item : Item α} {P : List α → List Token → Prop} (hNil : P [] [])
    (hCons : ∀ s, closesHere s = false → ∀ a t, item.Accepts s a t → ∀ l log, P l log →
      P (a :: l) (Token.unspaced (item.run s).tokens ++ log)) :
    (untilClose item).LogsAs P := by
  intro s l t hAccepts
  -- by induction on the members
  induction s using untilClose_induction item generalizing l with
  | step s ih =>
    rcases accepts_untilClose.mp hAccepts with ⟨hEnds, rfl, -⟩ |
      ⟨hGoesOn, a, u, l, hItem, hMore, rfl⟩
    · rw [untilClose_run_of_close hEnds]
      exact hNil
    · -- the first member, and what holds of the others by the hypothesis
      have hRest : P l (Token.unspaced ((untilClose item).run u).tokens) := by
        obtain rfl := hItem.2
        exact ih a hGoesOn hItem.1 hMore
      have hRun := untilClose_run_of_ok hGoesOn hItem.run_eq
      rw [hRun, Token.unspaced_append]
      exact hCons s hGoesOn a u hItem l _ hRest

end Reader

/-! ## Nodes

What a check lets through is the node that was asked for. -/

/-- A sequence of checks that succeeds succeeds in each of them. -/
theorem exists_of_bind_eq_ok {ε α β : Type} {x : Except ε α} {f : α → Except ε β} {b : β}
    (h : (x >>= f) = .ok b) : ∃ a, x = .ok a ∧ f a = .ok b := by
  cases x with
  | error e => exact absurd h (by simp [bind, Except.bind])
  | ok a => exact ⟨a, rfl, h⟩

namespace Element

/-- The checks leave a simple placeholder as it is. -/
theorem eq_simple_of_ok {id : String} {e : Element} (h : Element.simple? id = .ok e) :
    e = .simple id := by
  obtain ⟨-, -, hPure⟩ := exists_of_bind_eq_ok h
  exact (Except.ok.inj hPure).symm

/-- The checks leave a typed placeholder as it is. -/
theorem eq_typed_of_ok {id type : String} {style : Option String} {e : Element}
    (h : Element.typed? id type style = .ok e) : e = .typed id type style := by
  obtain ⟨-, -, hType⟩ := exists_of_bind_eq_ok h
  obtain ⟨-, -, hPlain⟩ := exists_of_bind_eq_ok hType
  dsimp only at hPlain
  split at hPlain
  · exact absurd hPlain (by simp [throw, throwThe, MonadExceptOf.throw, bind, Except.bind])
  · split at hPlain
    · exact absurd hPlain (by simp [throw, throwThe, MonadExceptOf.throw, bind, Except.bind])
    · exact (Except.ok.inj hPlain).symm

/-- The checks leave a plural placeholder as it is, with its offset as a number. -/
theorem eq_plural_of_ok {id : String} {kind : PluralKind} {n : Nat}
    {cases : List (Case Element)} {e : Element}
    (h : Element.plural? id kind (.integer n) cases = .ok e) : e = .plural id kind n cases := by
  obtain ⟨-, -, hOffset⟩ := exists_of_bind_eq_ok h
  obtain ⟨-, -, hPure⟩ := exists_of_bind_eq_ok hOffset
  exact (Except.ok.inj hPure).symm

/-- The checks leave a select placeholder as it is. -/
theorem eq_select_of_ok {id type : String} {cases : List (Case Element)} {e : Element}
    (h : Element.select? id type cases = .ok e) : e = .select id type cases := by
  obtain ⟨-, -, hType⟩ := exists_of_bind_eq_ok h
  obtain ⟨-, -, hPlain⟩ := exists_of_bind_eq_ok hType
  dsimp only at hPlain
  split at hPlain
  · exact absurd hPlain (by simp [throw, throwThe, MonadExceptOf.throw, bind, Except.bind])
  · obtain ⟨-, -, hPure⟩ := exists_of_bind_eq_ok hPlain
    exact (Except.ok.inj hPure).symm

/-- A node without children is told by its own token. -/
theorem marks_of_leaf {e : Element} (h : (Node.element e).children = []) :
    (Node.element e).marks = (Node.element e).token?.toList := by
  rw [Node.marks_eq, h, List.flatMap_nil, List.append_nil]

/-- A placeholder with cases is told by its name and by its cases. -/
theorem marks_of_cases {e : Element} {id : String} {cases : List (Case Element)}
    (hName : (Node.element e).token? = some ⟨.id, id⟩)
    (hCases : (Node.element e).children = cases.map Node.case) :
    (Node.element e).marks = ⟨.id, id⟩ :: Case.allMarks cases := by
  rw [Node.marks_eq, hName, hCases, List.flatMap_map]
  rfl

/-- The marks of a plural placeholder are its name and those of its cases. -/
theorem marks_of_plural_ok {id : String} {kind : PluralKind} {n : Nat}
    {cases : List (Case Element)} {e : Element}
    (h : Element.plural? id kind (.integer n) cases = .ok e) :
    (Node.element e).marks = ⟨.id, id⟩ :: Case.allMarks cases := by
  obtain rfl := eq_plural_of_ok h
  exact marks_of_cases rfl rfl

/-- The marks of a select placeholder are its name and those of its cases. -/
theorem marks_of_select_ok {id type : String} {cases : List (Case Element)} {e : Element}
    (h : Element.select? id type cases = .ok e) :
    (Node.element e).marks = ⟨.id, id⟩ :: Case.allMarks cases := by
  obtain rfl := eq_select_of_ok h
  exact marks_of_cases rfl rfl

end Element

/-- The checks leave the cases of a list as they are. -/
theorem Case.eq_map_of_ok {entries : List (String × Message)} {cases : List (Case Element)}
    (h : (entries.mapM fun entry => Case.make? entry.1 entry.2) = .ok cases) :
    cases = entries.map fun entry => ⟨entry.1, entry.2⟩ := by
  induction entries generalizing cases with
  | nil => exact (Except.ok.inj h).symm
  | cons entry entries ih =>
    rw [List.mapM_cons] at h
    -- the first case, and then the others
    obtain ⟨c, hCase, hMore⟩ := exists_of_bind_eq_ok h
    obtain ⟨-, -, hHere⟩ := exists_of_bind_eq_ok hCase
    obtain ⟨rest, hRest, hAll⟩ := exists_of_bind_eq_ok hMore
    obtain rfl := Except.ok.inj hAll
    rw [← Except.ok.inj hHere, ih hRest]
    rfl

/-! ## The grammar -/

namespace Grammar

open Reader Token

/-! ### Parts of a placeholder -/

/-- An offset clause is not told of. -/
theorem logsAs_offset : offset.LogsAs fun _ log => Records log [] [] := by
  intro s n t hAccepts
  by_cases hKeyword : "offset:".toList <+: s
  · obtain ⟨u, rfl⟩ := hKeyword
    obtain ⟨digits, hLog, -⟩ := unspaced_run_offset_of_keyword hAccepts
    rw [hLog]
    exact ((records_token (by decide) (by decide)).append
      (records_token (by decide) (by decide))).append (records_token (by simp) (by simp))
  · rw [run_offset_of_not_keyword hKeyword]
    exact records_nil

/-- A placeholder is closed at once or goes on. -/
theorem logsAs_closeOr {p q : Reader Element} {Q : Element → List Token → Prop}
    (hClose : p.LogsAs Q) (hGoOn : q.LogsAs Q) :
    (space >>= fun _ => peek >>= fun next =>
      if next == some '\x7d' then p else q).LogsAs Q := by
  refine logsAs_space.bind_nothing fun _ => ?_
  refine (logsAs_of_silent silent_peek).bind_nothing fun next => ?_
  split
  · exact hClose
  · exact hGoOn

theorem logsAs_close : close.LogsAs fun _ log => log = [⟨.closeBrace, "\x7d"⟩] :=
  logsAs_space.bind_nothing fun _ => logsAs_demand _ (by decide) _

/-- A message in braces, up to its closing brace. -/
theorem logsAs_closed {body : Reader Message}
    (hBody : body.LogsAs fun m log => Records log (Node.message m).marks []) :
    (closed body).LogsAs fun m log => RecordsClosed log (Node.message m).marks := by
  refine hBody.bind fun m log hMessage => ?_
  refine (logsAs_demand _ (by decide) _).bind fun _ _ hClose => logsAs_pure ?_
  subst hClose
  exact hMessage.closed rfl

/-- A case logs its selector and what its body logs in braces. -/
theorem logsAs_caseEntry {body : Reader Message}
    (hBody : body.LogsAs fun m log => RecordsClosed log (Node.message m).marks) :
    (caseEntry body).LogsAs fun entry log =>
      Records log (Node.case ⟨entry.1, entry.2⟩).marks [entry.1] := by
  refine (logsAs_name (by decide) _).bind fun selector _ hSelector => ?_
  refine logsAs_space.bind_nothing fun _ => ?_
  refine (logsAs_demand _ (by decide) _).bind fun _ _ hBrace => ?_
  refine hBody.bind fun m log hMessage => ?_
  refine logsAs_space.bind_nothing fun _ => logsAs_pure ?_
  subst hSelector hBrace
  rw [Case.marks_eq, List.append_nil]
  exact (records_token (by simp) (by simp)).append (hMessage.bracketed rfl)

section
variable {body : Body}
  (hBody : ∀ b, (body b).LogsAs fun m log => RecordsClosed log (Node.message m).marks)
include hBody

/-- The entries of a list log their selectors and bodies one after the other. -/
theorem logsAs_entries (b : Bool) :
    (untilClose (caseItem (body b))).LogsAs fun entries log =>
      Records log (Case.allMarks (entries.map fun entry => ⟨entry.1, entry.2⟩))
        (entries.map (·.1)) :=
  logsAs_untilClose records_nil fun _ _ _ _ hEntry _ _ hMore =>
    (logsAs_caseEntry (hBody b) hEntry).append hMore

/-- A list of cases is told of, whatever was overridden in it. -/
theorem logsAs_caseList (construct : String) (b requireOther : Bool) :
    (caseList body construct b requireOther).LogsAs fun cases log =>
      ∃ selectors, Records log (Case.allMarks cases) selectors := by
  refine (logsAs_entries hBody b).bind fun entries log hEntries => ?_
  refine (logsAs_of_silent (silent_require _ _)).bind_nothing fun _ => ?_
  -- the log has all of the entries, and the cases are what was left of them
  refine logsAs_checked fun cases hCases => ?_
  rw [List.append_nil, Case.eq_map_of_ok hCases, ← Declared.merged_eq_collapse]
  exact ⟨_, hEntries.merged⟩

/-! The name of a placeholder is logged before the rest of it is read, so what is said of the
rest has the log so far in front. -/

section
variable {id : String} {front : List Token} (hFront : Records front [⟨.id, id⟩] [])
include hFront

/-- Cases, and the placeholder that is made of them. -/
theorem logsAs_cased (construct : String) (b requireOther : Bool)
    {node : List (Case Element) → Except NodeError Element}
    (hNode : ∀ cases e, node cases = .ok e →
      (Node.element e).marks = ⟨.id, id⟩ :: Case.allMarks cases) :
    (caseList body construct b requireOther >>= fun cases => checked (node cases)).LogsAs
      fun e log => ∃ selectors, Records (front ++ log) (Node.element e).marks selectors := by
  refine (logsAs_caseList hBody construct b requireOther).bind fun cases log hCases => ?_
  refine logsAs_checked fun e hElement => ?_
  obtain ⟨selectors, hRecords⟩ := hCases
  rw [List.append_nil, hNode cases e hElement]
  exact ⟨_, hFront.append hRecords⟩

/-- A style is not told of, and cases of one's own are told of like others. -/
theorem logsAs_styleArgument (type : String) :
    (styleArgument body id type).LogsAs fun e log =>
      ∃ selectors, Records (front ++ log) (Node.element e).marks selectors := by
  have hThird : ∀ scan, (thirdPart body id type scan).LogsAs fun e log =>
      ∃ selectors, Records (front ++ log) (Node.element e).marks selectors := by
    intro scan
    unfold thirdPart
    split
    · -- a list of cases, or one token for the style
      exact logsAs_cased hBody hFront _ _ _ fun _ _ => Element.marks_of_select_ok
    · intro s e t hAccepts
      -- a style leaves one token, which is no mark
      obtain ⟨hLog, hElement⟩ := tokens_run_styleOnly hAccepts
      obtain rfl := Element.eq_typed_of_ok hElement
      rw [hLog, Element.marks_of_leaf rfl]
      exact ⟨_, hFront.append (records_token (by simp) (by simp))⟩
  intro s e t hAccepts
  rw [Accepts, run_styleArgument] at hAccepts
  rw [run_styleArgument]
  exact hThird _ hAccepts

/-- The argument of a placeholder logs what its node tells of, whatever its type is. -/
theorem logsAs_argument (type : String) :
    (argument body id type).LogsAs fun e log =>
      ∃ selectors, Records (front ++ log) (Node.element e).marks selectors := by
  unfold argument
  split
  · next kind _ =>
    -- the offset is logged in front of the cases, and has no marks
    refine logsAs_offset.bind fun n log hOffset => ?_
    have hNode : ∀ cases e, Element.plural? id kind (.integer n) cases = .ok e →
        (Node.element e).marks = ⟨.id, id⟩ :: Case.allMarks cases :=
      fun _ _ => Element.marks_of_plural_ok
    have hCased := logsAs_cased hBody (hFront.append hOffset) kind.name true true hNode
    simpa only [List.append_assoc] using hCased
  · split
    · exact logsAs_cased hBody hFront _ _ _ fun _ _ => Element.marks_of_select_ok
    · exact logsAs_styleArgument hBody hFront type

/-- All that may follow a type is logged up to the brace that ends the placeholder. -/
theorem logsAs_afterType (type : String) :
    (afterType body id type).LogsAs fun e log =>
      RecordsClosed (front ++ log) (Node.element e).marks := by
  refine logsAs_closeOr ?_ ?_
  · refine (logsAs_of_silent (silent_require _ _)).bind_nothing fun _ => ?_
    refine (logsAs_take (by decide)).bind fun _ _ hClose => ?_
    -- the placeholder is closed after its type
    refine logsAs_checked fun e hElement => ?_
    obtain ⟨text, rfl⟩ := hClose
    obtain rfl := Element.eq_typed_of_ok hElement
    rw [Element.marks_of_leaf rfl]
    exact hFront.closed rfl
  · refine (logsAs_demand _ (by decide) _).bind fun _ _ hComma => ?_
    refine logsAs_space.bind_nothing fun _ => ?_
    subst hComma
    -- the comma comes after the name and the type, and it is no mark
    have hFront' : Records (front ++ [⟨.comma, ","⟩]) [⟨.id, id⟩] [] :=
      hFront.append (records_token (by decide) (by decide))
    refine (logsAs_argument hBody hFront' type).bind fun e log hElement => ?_
    refine logsAs_close.bind fun _ _ hClose => logsAs_pure ?_
    subst hClose
    obtain ⟨selectors, hRecords⟩ := hElement
    have hClosed : RecordsClosed (_ ++ [⟨.closeBrace, "\x7d"⟩]) _ := hRecords.closed rfl
    simpa only [List.append_assoc, List.append_nil] using hClosed

/-- All that may follow a name is logged up to the brace that ends the placeholder. -/
theorem logsAs_afterId :
    (afterId body id).LogsAs fun e log =>
      RecordsClosed (front ++ log) (Node.element e).marks := by
  refine logsAs_closeOr ?_ ?_
  · refine (logsAs_take (by decide)).bind fun _ _ hClose => ?_
    refine logsAs_checked fun e hElement => ?_
    -- the placeholder is closed after its name
    obtain ⟨text, rfl⟩ := hClose
    obtain rfl := Element.eq_simple_of_ok hElement
    rw [Element.marks_of_leaf rfl]
    exact hFront.closed rfl
  · refine (logsAs_demand _ (by decide) _).bind fun _ _ hComma => ?_
    refine logsAs_space.bind_nothing fun _ => ?_
    refine (logsAs_name (by decide) _).bind fun type _ hType => ?_
    subst hComma hType
    -- the comma and the type come after the name, and neither is a mark
    have hFront' : Records (front ++ ([⟨.comma, ","⟩] ++ [⟨.type, type⟩])) [⟨.id, id⟩] [] :=
      hFront.append ((records_token (by decide) (by decide)).append
        (records_token (by simp) (by simp)))
    have hAfter := logsAs_afterType hBody hFront' type
    simpa only [List.append_assoc] using hAfter

end

/-- A placeholder is told of by its own name, and by whatever is told of its cases. -/
theorem logsAs_placeholder :
    (placeholder body).LogsAs fun e log => RecordsClosed log (Node.element e).marks := by
  refine logsAs_space.bind_nothing fun _ => ?_
  refine (logsAs_name (by decide) _).bind fun id _ hName => ?_
  subst hName
  exact logsAs_afterId hBody (records_token (by simp) (by simp))

/-! ### Messages -/

/-- The log of an element tells of the element, and has no selectors outside of its braces. -/
theorem records_element {b : Bool} {s t : List Char} {e : Element}
    (hGoesOn : closesHere s = false) (hItem : (elementItem body b).Accepts s e t) :
    Records (unspaced ((elementItem body b).run s).tokens) (Node.element e).marks [] := by
  -- a placeholder, a pound sign, or a text
  rcases element_cases (b := b) hGoesOn with ⟨u, rfl⟩ | ⟨u, rfl, rfl⟩ | ⟨c, u, rfl, hPlain⟩
  · -- what is logged after the opening brace goes up to the closing brace
    rcases hRun : (placeholder body).run u with ⟨result, tokens, rest⟩
    rw [Accepts, run_item_of_brace hRun] at hItem
    have hPlaceholder : (placeholder body).Accepts u e rest := by
      rw [Accepts, hRun]
      exact ⟨hItem.1, rfl⟩
    have hClosed := logsAs_placeholder hBody hPlaceholder
    rw [hRun] at hClosed
    rw [run_item_of_brace hRun, unspaced_cons (by decide)]
    exact hClosed.bracketed rfl
  · -- a pound sign is one mark, and a text is none
    rw [Accepts, run_item_of_pound] at hItem
    obtain rfl := Except.ok.inj hItem.1
    rw [run_item_of_pound, Element.marks_of_leaf rfl]
    exact records_token (by decide) (by decide)
  · rw [Accepts, run_item_of_text body hPlain rfl] at hItem
    obtain rfl := Except.ok.inj hItem.1
    rw [run_item_of_text body hPlain rfl, Element.marks_of_leaf rfl]
    exact records_token (by simp) (by simp)

/-- The elements of a message are logged one after the other. -/
theorem logsAs_elements (cx : Context) :
    (elements body cx).LogsAs fun m log => Records log (Node.message m).marks [] := by
  have hList : (untilClose (elementItem body cx.poundIsNumber)).LogsAs fun m log =>
      Records log (Node.message m).marks [] := by
    refine logsAs_untilClose ?_ fun s hGoesOn e t hItem m log hMore => ?_
    · rw [Message.marks_eq]
      exact records_nil
    · rw [Message.marks_eq, List.flatMap_cons, ← Message.marks_eq]
      exact (records_element hBody hGoesOn hItem).append hMore
  -- the check at the end of a pattern logs nothing
  refine hList.bind fun m log hMessage => ?_
  refine (logsAs_of_silent silent_peek).bind_nothing fun _ => ?_
  refine (logsAs_of_silent (silent_require _ _)).bind_nothing fun _ => logsAs_pure ?_
  rwa [List.append_nil]

end

/-- The log of a message tells of the message. -/
theorem logsAs_message (cx : Context) :
    (message cx).LogsAs fun m log => Records log (Node.message m).marks [] := by
  -- by induction on the levels that are left: a message in braces has its log closed
  induction cx using message_induction with
  | step cx ih =>
    rw [message_eq]
    refine logsAs_elements (fun b => ?_) cx
    unfold subMessage
    split
    · exact fun _ _ _ hAccepts => absurd hAccepts not_accepts_reject
    · next hRoom => exact logsAs_closed (ih hRoom b)

end Grammar

end MessagePattern
