import MessagePattern.Parser
import MessagePattern.Walk

/-!
# The arguments of a message

What a caller has to know of a message before formatting it: which arguments it needs, how each is
used, and whether it chooses between sub-messages.

* `Use` — one use of an argument;
* `Survey` — the uses that a walk finds, in the order of the walk, and where the walk ended;
* `Arguments` — what is known of a message, `Message.arguments`.
-/

namespace MessagePattern

/-- How an argument is used. -/
inductive Use.Context where
  /-- It is formatted in place. -/
  | pattern
  /-- Its plural category chooses a case. -/
  | plural
  /-- Its value chooses a case. -/
  | select
  deriving DecidableEq, Repr

/-- The name of a way of use. -/
def Use.Context.name : Use.Context → String
  | .pattern => "pattern"
  | .plural => "plural"
  | .select => "select"

/-- One use of an argument. -/
structure Use where
  name : String
  type : Option String
  context : Use.Context
  deriving DecidableEq, Repr

/-- The use that a node makes of an argument, if it is a placeholder. -/
def Node.use? (n : Node) : Option Use :=
  match n.label with
  | .simple id => some ⟨id, none, .pattern⟩
  | .typed id type _ => some ⟨id, some type, .pattern⟩
  | .plural id kind _ => some ⟨id, some kind.name, .plural⟩
  | .select id type => some ⟨id, some type, .select⟩
  | _ => none

/-- What is known of the arguments of a message. Each use stands once. -/
structure Arguments where
  uses : List Use
  /-- Whether the message chooses between sub-messages. -/
  hasSelectors : Bool
  /-- Whether a sub-message shows the plural number. -/
  usesPound : Bool
  deriving DecidableEq, Repr

namespace Arguments

/-- The names of the arguments, each once. -/
def names (a : Arguments) : List String := (a.uses.map (·.name)).eraseDups

/-- Whether an argument is used at all. -/
def requires (a : Arguments) (name : String) : Bool := a.uses.any fun use => use.name == name

/-- The types with which an argument is used, each once. -/
def typesOf (a : Arguments) (name : String) : List String :=
  (a.uses.filterMap fun use => if use.name = name then use.type else none).eraseDups

/-- What nodes that were seen tell of the arguments. -/
def ofNodes (nodes : List Node) : Arguments where
  uses := (nodes.filterMap Node.use?).eraseDups
  hasSelectors := nodes.any fun n => n.kind == .plural || n.kind == .select
  usesPound := nodes.any fun n => n.kind == .pound

end Arguments

/-- The visitor that takes note of placeholders and pound signs, and looks into the cases of those that
have them. For a placeholder it makes out the use of its argument, in a further call. -/
def argumentVisitor : Visitor where
  handler
    | .simple | .typed | .pound => some .stop
    | .plural | .select => some .descend
    | .message | .case | .text => none
  noteFrames
    | .simple | .typed | .plural | .select => 1
    | .message | .case | .text | .pound => 0

/-- What a walk finds of the arguments of a tree, whether it is finished or not, with the guard
afterwards and why the walk was stopped, if it was. -/
structure Survey where
  found : Arguments
  guard : DepthGuard
  result : Except Interruption Unit

/-- Looks for the arguments of a tree, with so many frames left. -/
def Node.survey (n : Node) (room : Nat) (g : DepthGuard) : Survey :=
  let w := argumentVisitor.visit n room g
  ⟨.ofNodes (w.sightings.map (·.node)), w.guard, w.result⟩

/-- The arguments of a message, within the usual limit of a walk. -/
def Message.arguments (m : Message) : Except Interruption Arguments :=
  let survey := (Node.message m).survey usualRoom (DepthGuard.ofLimit defaultWalkLimit)
  survey.result.map fun _ => survey.found

/-- Why the arguments of a pattern are not known. -/
inductive ArgumentsFailure where
  /-- The pattern gives no message. -/
  | pattern (cause : Failure)
  /-- The message could not be walked to the end. -/
  | walk (cause : Interruption)
  /-- What was offered is neither a message nor a text. -/
  | notAPattern (given : PatternValue)
  deriving DecidableEq, Repr

/-- The arguments of a pattern, which has to be offered as text. -/
def PatternValue.arguments (value : PatternValue) : Except ArgumentsFailure Arguments :=
  match value with
  | .text _ =>
    match MessagePattern.parse value with
    | .error cause => .error (.pattern cause)
    | .ok message => (Message.arguments message).mapError .walk
  | given => .error (.notAPattern given)

end MessagePattern
