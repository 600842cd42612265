import MessagePattern.Proofs.CompactForm
import MessagePattern.Proofs.Uses
import MessagePattern.Proofs.Written

/-!
# Walks that never come to their limit

A parser bounds how deep cases nest, and every walk bounds how many levels it enters. The bounds
fit: no visitor comes to its limit in what a parser gives if that is three times the limit of the
parser and two more, and the compact form does not come to one of twice that of the parser and one
more. A visitor cannot do with less, since a text may stand in as many cases as may nest.

The frames of the stack are bounded apart from that. They suffice for the usual limits. A parser may
be given a limit that is nearly twice the usual one, and its recursion still fits the stack; but then
the walk of what it gives need not, whatever limit it has.

* `Visitor.visit_ne_tooDeep`, `Visitor.visit_ok` — walks with as many levels as the tree has;
* `Message.nested_wellFormed` — a message that is as deep as its nesting allows;
* `Visitor.visit_nested_eq_tooDeep`, `Visitor.visit_nested_eq_stackExhausted` — what ends its walk;
* `PatternValue.arguments_ne_walk` — the arguments of a pattern, within the usual limits;
* `parse_walkable` — the bounds, that the one for visitors is the least, and when the stack gives out;
* `parse_nested_stackExhausted` — a message that a parser gives and a visitor cannot walk.
-/

namespace MessagePattern

section
variable {n : Node} {room : Nat} {limit : Int}

/-- A walk that may enter as many levels as the tree has does not come to its limit. -/
theorem Visitor.visit_ne_tooDeep (v : Visitor) (h : (n.levels fun _ => true) ≤ limit)
    (e : DepthExceeded) : (v.visit n room ⟨limit, 0⟩).result ≠ .error (.tooDeep e) := by
  rw [visit_eq_of_reached]
  cases hFind : (v.reached n).findSome? (v.ending n room ⟨limit, 0⟩) with
  | none => simp
  | some why =>
    obtain ⟨p, hReached, hEnds⟩ := List.exists_of_findSome?_eq_some hFind
    have hGoesOn : v.refuses limit p = false := by
      simpa using List.any_eq_false.mp (v.any_refuses_eq_false h) p hReached
    rw [ending_eq, hGoesOn, if_neg Bool.false_ne_true] at hEnds
    obtain rfl : .stackExhausted = why := by simpa using (Option.ite_none_right_eq_some.mp hEnds).2
    simp

/-- A walk that may enter as many levels as the tree has is finished if the frames suffice. -/
theorem Visitor.visit_ok (v : Visitor) (h : (n.levels fun _ => true) ≤ limit)
    (hFrames : ∀ p ∈ v.reached n,
      v.framesTo n p.path + v.visitFrames p.node (v.refuses limit p) ≤ room) :
    (v.visit n room ⟨limit, 0⟩).result = .ok () := by
  rw [visit_of_fits fun p hReached _ => hFrames p hReached]
  dsimp only
  rw [v.any_refuses_eq_false h]
  rfl

end

namespace Message

section
variable {nesting : Nat} {b : Bool} {m : Message} (h : m.WellFormed nesting b)
include h

/-- The places of a well-formed message are closer to the root than three levels for each level of
nesting, and two more. -/
theorem WellFormed.distance_le {v : Visitor} {p : Place} (hReached : p ∈ v.reached (.message m)) :
    p.distance ≤ 3 * nesting + 1 := by
  have hLevels := h.levels_le
  have hPlace : p ∈ (Node.message m).places :=
    Node.mem_places_iff.mpr (Node.mem_visible_iff.mp hReached).1
  have hDistance := Node.distance_lt_levels hPlace
  omega

/-- A limit of three levels for each nesting, and two, is not met by any visitor. -/
theorem WellFormed.visit_ne_tooDeep (v : Visitor) {limit : Int} (hLimit : 3 * nesting + 2 ≤ limit)
    (room : Nat) (e : DepthExceeded) :
    (v.visit (.message m) room ⟨limit, 0⟩).result ≠ .error (.tooDeep e) := by
  have hLevels := h.levels_le
  exact v.visit_ne_tooDeep (by omega) e

/-- A well-formed message is walked to the end with as many frames for each of its levels as the
visitor takes, and those for refusing a level. -/
theorem WellFormed.visit_ok {v : Visitor} {frames : Nat} (hTakes : v.TakesPerLevel frames)
    {limit : Int} (hLimit : 3 * nesting + 2 ≤ limit) {room : Nat}
    (hRoom : frames * (3 * nesting + 2) + DepthGuard.refusalFrames ≤ room) :
    (v.visit (.message m) room ⟨limit, 0⟩).result = .ok () := by
  have hLevels := h.levels_le
  refine v.visit_ok (by omega) fun p hReached => ?_
  -- above a place there are no more levels than it is far from the root, and one more is visited
  have hAbove := hTakes.framesTo_le (.message m) p.path
  have hVisit := hTakes.visitFrames_le p.node (v.refuses limit p)
  have hDistance : frames * p.path.length ≤ frames * (3 * nesting + 1) :=
    Nat.mul_le_mul_left _ (h.distance_le hReached)
  have hOneMore : frames * (3 * nesting + 2) = frames * (3 * nesting + 1) + frames :=
    Nat.mul_succ _ _
  omega

/-- A well-formed message is surveyed to the end with seven frames for each level of nesting and nine
more. -/
theorem WellFormed.survey_ok {limit : Int} (hLimit : 3 * nesting + 2 ≤ limit) {room : Nat}
    (hRoom : 7 * nesting + 9 ≤ room) :
    ((Node.message m).survey room ⟨limit, 0⟩).result = .ok () := by
  have hLevels := h.levels_le
  refine argumentVisitor.visit_ok (by omega) fun p hReached => ?_
  have hAbove : 3 * argumentVisitor.framesTo (.message m) p.path ≤ 7 * p.distance + 1 :=
    Visitor.three_mul_framesTo_argumentVisitor_le _ _
  have hVisit := Visitor.takesPerLevel_argumentVisitor.visitFrames_le p.node
    (argumentVisitor.refuses limit p)
  have hDistance := h.distance_le hReached
  unfold DepthGuard.refusalFrames at hVisit
  omega

/-- What is known of a well-formed message, within the usual limit of a walk. -/
theorem WellFormed.exists_arguments (hLimit : 3 * nesting + 2 ≤ defaultWalkLimit) :
    ∃ a, m.arguments = .ok a := by
  have hSurvey : ((Node.message m).survey usualRoom ⟨defaultWalkLimit, 0⟩).result = .ok () := by
    have hUsual : defaultWalkLimit = 302 := by decide
    have hRoom : usualRoom = 950 := by decide
    exact h.survey_ok hLimit (by omega)
  refine ⟨((Node.message m).survey usualRoom ⟨defaultWalkLimit, 0⟩).found, ?_⟩
  rw [arguments, DepthGuard.ofLimit_defaultWalkLimit, hSurvey]
  rfl

end

/-! ## As deep as can be -/

/-- Nesting an argument makes a well-formed message of one with no nesting. -/
theorem nested_wellFormed {id : String} (hId : IsWord id) {m : Message}
    (h : m.WellFormed 0 false) (nesting : Nat) :
    (Message.nested id otherSelector nesting m).WellFormed nesting false := by
  induction nesting with
  | zero => exact h
  | succ nesting ih =>
    refine ⟨List.forall_mem_singleton.mpr ?_, .singleton _⟩
    refine ⟨hId, by decide, by decide, by decide, by simp, fun _ => by simp, ?_⟩
    have hOther : IsWord otherSelector := by decide
    exact ⟨List.forall_mem_singleton.mpr hOther, by simp, List.forall_mem_singleton.mpr ih⟩

/-- The innermost text of a nested message is reached by a visitor without handlers. -/
theorem mem_reached_nested (id selector value : String) (nesting : Nat) :
    (⟨List.replicate (3 * nesting) 0 ++ [0], .element (.text value)⟩ : Place) ∈
      Visitor.reached {} (.message (Message.nested id selector nesting [.text value])) := by
  rw [Visitor.reached_plain, Node.mem_places_iff, descendant?_nested]
  rfl

/-- A nested text has one level more than a nested message that is empty. -/
theorem levels_nested_text (id selector value : String) (nesting : Nat) :
    ((Node.message (Message.nested id selector nesting [.text value])).levels fun _ => true) =
      3 * nesting + 2 := by
  have hText : ((Node.element (.text value)).levels fun _ => true) = 1 := by
    rw [Node.levels_eq]
    rfl
  have hMessage : ((Node.message [.text value]).levels fun _ => true) = 2 := by
    rw [Node.levels_eq]
    show 1 + ([(Node.element (.text value)).levels fun _ => true].foldr max 0) = 2
    rw [hText]
    rfl
  rw [levels_nested, hMessage]

end Message

/-! ## What parsers give -/

/-- A message that nests as deep as a parser lets it is what the parser gives for its pattern. -/
theorem Parser.parse_nested (nesting : Nat) {value : String} (hValue : value ≠ "") :
    (Parser.mk 0 nesting).parse
        (.text (Message.nested "v" otherSelector nesting [.text value]).pattern) =
      .ok (Message.nested "v" otherSelector nesting [.text value]) := by
  have hText : Message.WellFormed 0 false [.text value] :=
    ⟨List.forall_mem_singleton.mpr hValue, .singleton _⟩
  have hWell : (Message.nested "v" otherSelector nesting [.text value]).WellFormed nesting false :=
    Message.nested_wellFormed (by decide) hText nesting
  rw [parse_eq_ok_iff fun hLong => absurd hLong.1 (by simp), reply_eq_ok_iff]
  exact Declared.derives_pattern hWell

/-- A visitor without handlers may not enter a level for the innermost text at a limit that is one
lower than the levels. -/
theorem Visitor.any_refuses_nested (id selector value : String) (nesting : Nat) :
    (Visitor.reached {} (.message (Message.nested id selector nesting [.text value]))).any
      (Visitor.refuses {} (3 * nesting + 1)) = true := by
  refine List.any_eq_true.mpr ⟨_, Message.mem_reached_nested id selector value nesting, ?_⟩
  refine Bool.and_eq_true_iff.mpr ⟨rfl, ?_⟩
  simp [Place.distance]

/-- A visitor without handlers exhausts the stack in a nested message, whatever its limit, if it has
not two frames for each level and two more. -/
theorem Visitor.visit_nested_eq_stackExhausted (id selector value : String) (nesting : Nat)
    {limit : Int} (hLimit : 3 * nesting + 2 ≤ limit) {room : Nat}
    (hRoom : room < 2 * (3 * nesting + 2) + 2) :
    (Visitor.visit {} (.message (Message.nested id selector nesting [.text value])) room
      ⟨limit, 0⟩).result = .error .stackExhausted := by
  have hShallow : (Visitor.reached {} (.message (Message.nested id selector nesting
      [.text value]))).any (Visitor.refuses {} limit) = false :=
    any_refuses_eq_false _ (by rw [Message.levels_nested_text]; omega)
  refine visit_stackExhausted hShallow (Message.mem_reached_nested id selector value nesting) ?_
  rw [Message.framesTo_nested]
  show room < nesting * 6 + 2 + 4
  omega

/-- A visitor without handlers is refused the innermost text of a nested message by a limit that is one
too low, if it has the frames to come there. -/
theorem Visitor.visit_nested_eq_tooDeep (id selector value : String) (nesting : Nat) {room : Nat}
    (hRoom : 2 * (3 * nesting + 2) + DepthGuard.refusalFrames ≤ room) :
    (Visitor.visit {} (.message (Message.nested id selector nesting [.text value])) room
      ⟨3 * nesting + 1, 0⟩).result = .error (.tooDeep ⟨3 * nesting + 1⟩) := by
  rw [visit_of_fits (takesPerLevel_plain.fits _ (by omega))]
  exact if_pos (any_refuses_nested id selector value nesting)

/-- The arguments of a pattern are never refused because of the walk of its message. -/
theorem PatternValue.arguments_ne_walk (pattern : PatternValue) (why : Interruption) :
    pattern.arguments ≠ .error (.walk why) := by
  intro hRefused
  -- a text that does not parse has no survey, and what it parses to has one
  cases pattern with
  | text s =>
    rw [arguments] at hRefused
    split at hRefused
    · simp at hRefused
    · next m hParse =>
      have hWell := (Parser.derives_of_parse hParse).wellFormed
      obtain ⟨a, hKnown⟩ := hWell.exists_arguments (by decide)
      simp [hKnown, Except.mapError] at hRefused
  | _ => simp [arguments] at hRefused

/-- **Whatever a parser gives fits the limits of walks.** A visitor or a survey that may enter three
levels for each level that the parser lets cases nest, and two more, does not come to its limit in any
message that the parser gives, and neither does the compact form with two levels for each, and one more.
With frames enough, at as many for a level as the visitor takes, at seven for a level of nesting in a
survey and five in the compact form, they are finished. So with the usual limits a message that was
parsed has its compact form and its arguments, a visitor comes to its end if its levels take three
frames at most, and the arguments of a pattern are never refused because of their walk.

A visitor cannot do with less: however deep cases may nest, some message that a parser gives stops the
plain visitor at a limit that is one lower. And its limit does not see to the frames: without two for
each level and two more the walk of the same message exhausts the stack, however high the limit is. -/
theorem parse_walkable (p : Parser) (hNesting : 0 ≤ p.maxNesting) :
    (∀ (pattern : PatternValue) (m : Message), p.parse pattern = .ok m →
      ∀ (limit : Int) (room : Nat),
        (3 * p.maxNesting + 2 ≤ limit →
          (∀ (v : Visitor) (e : DepthExceeded),
            (v.visit (.message m) room ⟨limit, 0⟩).result ≠ .error (.tooDeep e)) ∧
          (∀ (v : Visitor) (frames : Nat), v.TakesPerLevel frames →
            frames * (3 * p.maxNesting + 2) + DepthGuard.refusalFrames ≤ room →
            (v.visit (.message m) room ⟨limit, 0⟩).result = .ok ()) ∧
          (∀ e : DepthExceeded,
            ((Node.message m).survey room ⟨limit, 0⟩).result ≠ .error (.tooDeep e)) ∧
          (7 * p.maxNesting + 9 ≤ room →
            ((Node.message m).survey room ⟨limit, 0⟩).result = .ok ())) ∧
        (2 * p.maxNesting + 1 ≤ limit →
          (∀ e : DepthExceeded, Node.compact ⟨limit, 0⟩ room (.message m) ≠ .error (.tooDeep e)) ∧
          (5 * p.maxNesting + 4 ≤ room →
            ∃ form, Node.compact ⟨limit, 0⟩ room (.message m) = .ok form))) ∧
    (∀ pattern m, MessagePattern.parse pattern = .ok m →
      (∃ form, m.compact = .ok form) ∧ (∃ a, m.arguments = .ok a) ∧
        ∀ v : Visitor, v.TakesPerLevel 3 →
          (v.visit (.message m) usualRoom (DepthGuard.ofLimit defaultWalkLimit)).result = .ok ()) ∧
    (∀ pattern e, PatternValue.arguments pattern ≠ .error (.walk e)) ∧
    ∃ pattern m, (Parser.mk 0 p.maxNesting).parse pattern = .ok m ∧
      (∀ room, (Visitor.visit {} (.message m) room ⟨3 * p.maxNesting + 1, 0⟩).result ≠ .ok ()) ∧
      (∀ room : Nat, 2 * (3 * p.maxNesting + 2) + DepthGuard.refusalFrames ≤ room →
        (Visitor.visit {} (.message m) room ⟨3 * p.maxNesting + 1, 0⟩).result =
          .error (.tooDeep ⟨3 * p.maxNesting + 1⟩)) ∧
      ∀ (limit : Int) (room : Nat), 3 * p.maxNesting + 2 ≤ limit →
        room < 2 * (3 * p.maxNesting + 2) + 2 →
        (Visitor.visit {} (.message m) room ⟨limit, 0⟩).result = .error .stackExhausted := by
  refine ⟨fun pattern m hParse limit room => ⟨fun hLimit => ?walk, fun hLimit => ?form⟩,
    fun pattern m hParse => ?usual, PatternValue.arguments_ne_walk, ?least⟩
  case walk =>
    -- what is parsed is well-formed, so its nesting bounds its levels
    have hWell := (Parser.derives_of_parse hParse).wellFormed
    have hLevels : 3 * (p.maxNesting.toNat : Int) + 2 ≤ limit := by omega
    refine ⟨fun v e => hWell.visit_ne_tooDeep v hLevels room e, fun v frames hTakes hRoom => ?_,
      fun e => hWell.visit_ne_tooDeep argumentVisitor hLevels room e,
      fun hRoom => hWell.survey_ok hLevels (by omega)⟩
    refine hWell.visit_ok hTakes hLevels ?_
    -- the bound on the frames is one of integers
    have hCast : ((frames * (3 * p.maxNesting.toNat + 2) : Nat) : Int) =
        frames * (3 * p.maxNesting + 2) := by
      rw [Int.natCast_mul, Int.natCast_add, Int.natCast_mul, Int.toNat_of_nonneg hNesting]
      rfl
    omega
  case form =>
    have hWell := (Parser.derives_of_parse hParse).wellFormed
    have hHasRoom : (DepthGuard.mk limit 0).HasRoom ((Node.message m).levels Node.takesLevel) :=
      hWell.hasRoom (by dsimp only; omega)
    exact ⟨(Node.compact_affords _ _ _).ne_tooDeep hHasRoom, fun hRoom =>
      ⟨_, Node.compact_eq hHasRoom (hWell.formFrames_le.trans (by omega))⟩⟩
  case usual =>
    have hWell := (Parser.derives_of_parse hParse).wellFormed
    rw [DepthGuard.ofLimit_defaultWalkLimit]
    exact ⟨⟨_, Message.compact_of_parse hParse⟩, hWell.exists_arguments (by decide),
      fun v hTakes => hWell.visit_ok hTakes (by decide) (by decide)⟩
  case least =>
    obtain ⟨nesting, hNat⟩ := Int.eq_ofNat_of_zero_le hNesting
    rw [hNat]
    -- the text that is nested as deep as the parser allows
    refine ⟨_, _, Parser.parse_nested nesting (by decide : "x" ≠ ""), fun room => ?_,
      fun room hRoom => ?_, fun limit room hLimit hRoom => ?_⟩
    · exact Visitor.visit_ne_ok (Visitor.any_refuses_nested "v" otherSelector "x" nesting)
    · exact Visitor.visit_nested_eq_tooDeep _ _ _ nesting (by omega)
    · exact Visitor.visit_nested_eq_stackExhausted _ _ _ nesting hLimit (by omega)

/-- A plural number in a case of a keyword, walked by a visitor and a survey that may enter eight
levels, and written within five. -/
theorem parse_walkable_of_plural_in_select :
    0 ≤ (Parser.mk 0 2).maxNesting ∧
      (Parser.mk 0 2).parse
          (.text "\x7bg,select,other\x7b\x7bn,plural,other\x7b#\x7d\x7d\x7d\x7d") =
        .ok [.select "g" "select" [⟨"other", [.plural "n" .cardinal 0 [⟨"other", [.pound]⟩]]⟩]] ∧
      3 * (Parser.mk 0 2).maxNesting + 2 ≤ 8 ∧ 2 * (Parser.mk 0 2).maxNesting + 1 ≤ 5 ∧
      Visitor.TakesPerLevel {} 2 ∧
      (2 : Nat) * (3 * (Parser.mk 0 2).maxNesting + 2) + DepthGuard.refusalFrames ≤ (23 : Nat) ∧
      7 * (Parser.mk 0 2).maxNesting + 9 ≤ (23 : Nat) ∧
      5 * (Parser.mk 0 2).maxNesting + 4 ≤ (23 : Nat) ∧
      (Visitor.visit {} (.message [.select "g" "select"
        [⟨"other", [.plural "n" .cardinal 0 [⟨"other", [.pound]⟩]]⟩]]) 23 ⟨8, 0⟩).result = .ok () ∧
      ((Node.message [.select "g" "select"
        [⟨"other", [.plural "n" .cardinal 0 [⟨"other", [.pound]⟩]]⟩]]).survey 23 ⟨8, 0⟩).result =
          .ok () ∧
      ∃ form, Node.compact ⟨5, 0⟩ 23 (.message [.select "g" "select"
        [⟨"other", [.plural "n" .cardinal 0 [⟨"other", [.pound]⟩]]⟩]]) = .ok form := by
  have hNesting : 0 ≤ (Parser.mk 0 2).maxNesting := by decide
  refine ⟨hNesting, ?parsed, ?eight, ?five, Visitor.takesPerLevel_plain, ?frames, ?survey, ?form,
    (((parse_walkable _ hNesting).1 _ _ ?parsed 8 23).1 ?eight).2.1 {} 2
      Visitor.takesPerLevel_plain ?frames,
    (((parse_walkable _ hNesting).1 _ _ ?parsed 8 23).1 ?eight).2.2.2 ?survey,
    (((parse_walkable _ hNesting).1 _ _ ?parsed 5 23).2 ?five).2 ?form⟩
  case parsed => decide +kernel
  case eight => decide
  case five => decide
  case frames => decide
  case survey => decide
  case form => decide

/-- A parser may be given a limit of 170, and what it gives needs no more than the 512 levels that a
visitor may then be allowed; but where the levels nest as deep as that the walk takes 1024 frames. -/
theorem parse_nested_stackExhausted :
    (clampDepth 170 5 reservedFrames).depth = 170 ∧
      3 * 170 + 2 ≤ (DepthGuard.ofLimit 512).limit ∧
      (Parser.mk 0 170).parse
          (.text (Message.nested "v" otherSelector 170 [.text "x"]).pattern) =
        .ok (Message.nested "v" otherSelector 170 [.text "x"]) ∧
      (Visitor.visit {} (.message (Message.nested "v" otherSelector 170 [.text "x"]))
        stackFrames.toNat (DepthGuard.ofLimit 512)).result = .error .stackExhausted := by
  have hGuard : DepthGuard.ofLimit 512 = ⟨512, 0⟩ := by decide
  refine ⟨by decide, by decide, Parser.parse_nested 170 (by decide), ?_⟩
  rw [hGuard]
  exact Visitor.visit_nested_eq_stackExhausted _ _ _ 170 (by decide) (by decide)

end MessagePattern
