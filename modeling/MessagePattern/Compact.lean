import MessagePattern.DepthLimit
import MessagePattern.Json
import MessagePattern.Keyed
import MessagePattern.Tree.Basic

/-!
# The compact form

A message as nested JSON arrays: text as a string, every other element as an array that begins with its
name, cases as an object from selectors to messages.

* `Node.compact` — the compact form of any node, under a depth guard and with so many frames left;
* `Message.compact` — the compact form of a message, within the usual limit.

Messages and the cases of a placeholder take one level of the guard each. Every node takes two frames of
the stack, for the call that visits it and the call that writes it, and the cases of a placeholder take
a third one.
-/

namespace MessagePattern

/-- A message in a case is smaller than the cases. -/
theorem Node.sizeOf_message_lt_of_mem {c : Case Element} {e : Element}
    (h : Node.case c ∈ (Node.element e).children) :
    sizeOf (Node.message c.message) < sizeOf (Node.element e) :=
  Nat.lt_trans (sizeOf_lt_of_mem_children (n := .case c) (List.mem_singleton_self _))
    (sizeOf_lt_of_mem_children h)

/-- The compact form of a node. -/
def Node.compact (g : DepthGuard) (room : Nat) (n : Node) : Except Interruption Json :=
  inCalls 2 room fun room =>
    match n with
    | .message m => do
      let inner ← g.enterWithin room
      return .arr (← m.mapM fun e => Node.compact inner room (.element e))
    | .case c => Node.compact g room (.message c.message)
    | .element (.text value) => return .str value
    | .element .pound => return .arr [.str "#"]
    | .element (.simple id) => return .arr [.str id]
    | .element (.typed id type none) => return .arr [.str id, .str type]
    | .element (.typed id type (some style)) => return .arr [.str id, .str type, .str style]
    | .element (.plural id kind offset cases) => do
      let members ← inCalls 1 room fun room => do
        let inner ← g.enterWithin room
        cases.mapM fun c => return (c.selector, ← Node.compact inner room (.message c.message))
      return .arr [.str id, .str kind.name, .int offset, .obj (Keyed.collapse members)]
    | .element (.select id type cases) => do
      let members ← inCalls 1 room fun room => do
        let inner ← g.enterWithin room
        cases.mapM fun c => return (c.selector, ← Node.compact inner room (.message c.message))
      return .arr [.str id, .str type, .obj (Keyed.collapse members)]
termination_by sizeOf n
decreasing_by
  · exact Node.sizeOf_lt_of_mem_children (List.mem_map_of_mem ‹_›)
  · exact Node.sizeOf_lt_of_mem_children (List.mem_singleton_self _)
  all_goals exact Node.sizeOf_message_lt_of_mem (List.mem_map_of_mem ‹_›)

/-- The compact form of a message, within the usual limit. -/
def Message.compact (m : Message) : Except Interruption Json :=
  Node.compact (DepthGuard.ofLimit defaultWalkLimit) usualRoom (.message m)

end MessagePattern
