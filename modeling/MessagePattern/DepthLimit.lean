import MessagePattern.Diagnostic

/-!
# Depth limits

A walk of a tree takes frames of the stack for every level, so a limit on levels is cut down to those
that the stack has room for, at so many frames for each. A guard counts the levels that a walk has
entered, and cuts its limit down as if each took one frame. Where they take more, a walk within the
limit may still run out of frames, so that is an outcome of its own.

* `clampDepth?` — a limit, cut down to what the stack has room for;
* `DepthGuard` — the count of levels, which `DepthGuard.enter` refuses to raise above the limit;
* `Interruption` — what keeps a walk from being finished;
* `inCalls`, `DepthGuard.enterWithin` — calls, and the entering of a level, with so many frames left.
-/

namespace MessagePattern

/-- How deep sub-messages may nest where nothing else is asked for. -/
def defaultNestingLimit : Int := 100

/-- The frames of the stack. -/
def stackFrames : Int := 1000

/-- The frames that are kept free where nothing else is asked for. -/
def reservedFrames : Int := 50

/-- The frames that are left for a walk whose callers have taken all of the reserved ones. -/
def usualRoom : Nat := (stackFrames - reservedFrames).toNat

/-- A limit that was cut down. -/
structure Clamping where
  requested : Int
  granted : Int
  /-- The frames that there are. -/
  available : Int
  deriving DecidableEq, Repr

/-- The wording of the warning about a limit that was cut down. -/
def Clamping.message (c : Clamping) : String :=
  "Clamping nesting limit " ++ toString c.requested ++ " to " ++ toString c.granted ++ ": " ++
    toString c.requested ++ " levels need more than the " ++ toString c.available ++
    " frames left under sys.getrecursionlimit()."

/-- A limit, and the warning if it was cut down. -/
structure ClampedDepth where
  depth : Int
  clamping : Option Clamping
  deriving DecidableEq, Repr

/-- A limit on levels, cut down to those that the unreserved frames have room for. Division rounds
down. -/
def clampDepth (requested framesPerLevel reserved : Int) : ClampedDepth :=
  let available := stackFrames - reserved
  let levels := available.fdiv framesPerLevel
  if levels < requested then ⟨levels, some ⟨requested, levels, available⟩⟩ else ⟨requested, none⟩

/-- A limit on levels, cut down to those that the unreserved frames have room for; there is no answer
for levels that take no frames. -/
def clampDepth? (requested framesPerLevel reserved : Int) : Option ClampedDepth :=
  if framesPerLevel = 0 then none else some (clampDepth requested framesPerLevel reserved)

/-- The limit that is kept is at most the limit that was asked for. -/
theorem clampDepth_le (requested framesPerLevel reserved : Int) :
    (clampDepth requested framesPerLevel reserved).depth ≤ requested := by
  simp only [clampDepth]
  split
  · exact Int.le_of_lt ‹_›
  · exact Int.le_refl _

/-- A limit of a walk that the tree exceeds. -/
structure DepthExceeded where
  limit : Int
  deriving DecidableEq, Repr

/-- What is said about a tree that is too deep. -/
def DepthExceeded.diagnostic (e : DepthExceeded) : Diagnostic :=
  .traversalDepthExceeded e.limit

/-- A count of the levels that a walk has entered. -/
structure DepthGuard where
  /-- The levels that may be entered. -/
  limit : Int := defaultNestingLimit
  /-- The levels that have been entered and not left. -/
  depth : Int := 0
  deriving DecidableEq, Repr

namespace DepthGuard

/-- A guard for a limit, cut down to the stack. -/
def ofLimit (requested : Int) : DepthGuard :=
  { limit := (clampDepth requested 1 reservedFrames).depth }

/-- Refuses a further level at the limit. -/
def check (g : DepthGuard) : Except DepthExceeded Unit :=
  if g.limit ≤ g.depth then .error ⟨g.limit⟩ else .ok ()

/-- Enters a level, unless the limit is reached. -/
def enter (g : DepthGuard) : Except DepthExceeded DepthGuard := do
  g.check
  return { g with depth := g.depth + 1 }

/-- Leaves a level. The count has no lower bound. -/
def exit (g : DepthGuard) : DepthGuard :=
  { g with depth := g.depth - 1 }

/-- A guard refuses to enter at its limit, and counts a level below it. -/
theorem enter_eq (g : DepthGuard) :
    g.enter = if g.limit ≤ g.depth then .error ⟨g.limit⟩ else .ok ⟨g.limit, g.depth + 1⟩ := by
  rw [enter, check]
  split <;> rfl

/-- Going back out gives the guard from which the level was entered. -/
theorem exit_enter (g : DepthGuard) : exit ⟨g.limit, g.depth + 1⟩ = g := by
  rw [exit, Int.add_sub_cancel]

/-- Leaving a level undoes entering it. -/
theorem exit_of_enter {g g' : DepthGuard} (h : g.enter = .ok g') : g'.exit = g := by
  rw [enter_eq] at h
  split at h
  · cases h
  · rw [← Except.ok.inj h, exit_enter]

end DepthGuard

/-- What keeps a walk from being finished. -/
inductive Interruption where
  /-- There are more levels than may be entered. -/
  | tooDeep (cause : DepthExceeded)
  /-- There are not enough frames for a call. -/
  | stackExhausted
  deriving DecidableEq, Repr

/-- Calls, one in the other, that take a frame each, and what the innermost does with the frames that
are left. -/
def inCalls {α : Type} (frames room : Nat) (body : Nat → Except Interruption α) :
    Except Interruption α :=
  if frames ≤ room then body (room - frames) else .error .stackExhausted

namespace DepthGuard

/-- The frames that are taken while a level is entered: by the call that enters it and the call that
looks at the limit. -/
def entryFrames : Nat := 2

/-- The frames that are taken while a level is refused: the same, and two more to say why. -/
def refusalFrames : Nat := 4

/-- Enters a level, with so many frames left for the calls that this takes. -/
def enterWithin (room : Nat) (g : DepthGuard) : Except Interruption DepthGuard :=
  match g.enter with
  | .ok inner => inCalls entryFrames room fun _ => .ok inner
  -- A refusal is made in calls, too, so it may turn into an exhausted stack.
  | .error e => inCalls refusalFrames room fun _ => .error (.tooDeep e)

end DepthGuard

/-- The levels of a tree that a walk may enter where nothing else is asked for: the root, three levels
for each level of nesting, and the innermost elements. -/
def defaultWalkLimit : Int := 3 * defaultNestingLimit + 2

end MessagePattern
