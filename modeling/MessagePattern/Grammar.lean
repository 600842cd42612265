import MessagePattern.DepthLimit
import MessagePattern.Keyed
import MessagePattern.Reader.Advance

/-!
# The grammar of message patterns

A message is a list of elements, up to the closing brace of the sub-message that it stands in or to the
end of the pattern. A placeholder is opened by a brace and reads, by what follows its name:

* nothing — an argument;
* a type — a formatted argument;
* a type and a style — a formatted argument with a style;
* `plural` or `selectordinal`, an optional offset clause, and cases;
* `select`, and cases;
* any other type that is not built in, and cases.

Cases are selectors, each followed by a message in braces. A message in braces stands one level deeper
than the message around it, and the level is limited. The readers below take the reader for such a
message as an argument, so that only `message` itself is recursive, on the levels that are left.

* `Context` — what a message has to know of the messages around it;
* `placeholder`, `caseList` — the parts of a message, given a reader for messages in braces;
* `message`, `subMessage` — a message, and a message in braces.
-/

namespace MessagePattern

/-- What a message has to know of the messages around it. -/
structure Context where
  /-- The deepest level at which a message may stand. -/
  limit : Int := defaultNestingLimit
  /-- The level at which the message stands; the root is at zero. -/
  depth : Int := 0
  /-- Whether the pound sign stands for a plural number here. -/
  poundIsNumber : Bool := false
  deriving DecidableEq, Repr

namespace Context

/-- Whether the message is the root. -/
def isTopLevel (cx : Context) : Bool := cx.depth == 0

/-- Whether no message may stand below this one. -/
def isFull (cx : Context) : Bool := cx.limit ≤ cx.depth

/-- The context of a message in braces. The meaning of the pound sign is set anew at each level. -/
def enter (cx : Context) (poundIsNumber : Bool) : Context :=
  { cx with depth := cx.depth + 1, poundIsNumber := poundIsNumber }

/-- The number of levels below this one. -/
def levelsLeft (cx : Context) : Nat := (cx.limit - cx.depth).toNat

/-- A message in braces has fewer levels left, so that reading messages ends. -/
theorem levelsLeft_enter_lt {cx : Context} (h : ¬cx.isFull = true) (poundIsNumber : Bool) :
    (cx.enter poundIsNumber).levelsLeft < cx.levelsLeft := by
  simp only [isFull, decide_eq_true_eq] at h
  simp only [levelsLeft, enter]
  omega

end Context

/-- The argument types that are built in and take a style, never sub-messages. -/
def simpleTypes : List String :=
  ["number", "date", "time", "ordinal", "duration", "spellout"]

namespace Grammar

open Reader

/-- A reader for the messages in braces below some message, by the meaning of the pound sign there. -/
abbrev Body := Bool → Reader Message

/-! ## Cases -/

/-- Reads a selector and the message in braces after it. -/
def caseEntry (body : Reader Message) : Reader (String × Message) := do
  let selector ← name .selector .selector
  space
  demand '\x7b' .openBrace .subMessageOpen
  let message ← body
  space
  return (selector, message)

/-- A case takes an opening brace at least. -/
theorem advances_caseEntry (body : Reader Message) (s : List Char) :
    (caseEntry body).Advances s :=
  .bind_right fun _ _ => .bind_right fun _ _ => .bind_left (advances_demand _ _ _ _) _

/-- The members of a list of cases. -/
def caseItem (body : Reader Message) : Item (String × Message) where
  toReader := caseEntry body
  length_rest_lt s a _ h := advances_caseEntry body s a h

/-- Reads cases up to the closing brace of the placeholder. A selector that is repeated keeps its first
place and chooses the last of its messages. -/
def caseList (body : Body) (construct : String) (poundIsNumber requireOther : Bool) :
    Reader (List (Case Element)) := do
  let entries ← untilClose (caseItem (body poundIsNumber))
  require (!requireOther || entries.any (fun entry => entry.1 == otherSelector))
    (.missingOther construct)
  -- A placeholder checks its cases once more as it is built.
  checked ((Keyed.collapse entries).mapM fun entry => Case.make? entry.1 entry.2)

/-! ## Placeholders -/

/-- Reads an offset clause and the blanks after it. Without a clause the offset is zero. -/
def offset : Reader Nat := do
  match ← offsetClause? with
  | some n =>
    space
    return n
  | none => return 0

/-- Reads the arguments of a plural placeholder: an optional offset clause, and cases. -/
def pluralArgument (body : Body) (id : String) (kind : PluralKind) : Reader Element := do
  let offset ← offset
  let cases ← caseList body kind.name true true
  checked (Element.plural? id kind (.integer offset) cases)

/-- Reads the cases of a select placeholder. -/
def selectArgument (body : Body) (id : String) : Reader Element := do
  let cases ← caseList body selectType false true
  checked (Element.select? id selectType cases)

/-- Reads the third part of any other placeholder: a style, which may hold commas, or, where the type is
not built in and an unquoted brace opens in the remainder, cases. -/
def styleArgument (body : Body) (id type : String) : Reader Element := do
  let scan ← styleScan
  -- The scan has only looked ahead: cases are read from where it began.
  if scan.stopsAtOpenBrace && !simpleTypes.contains type then
    let cases ← caseList body type false false
    checked (Element.select? id type cases)
  else
    require (!scan.value.isEmpty) (.expected .styleName)
    let style ← commitStyle scan
    checked (Element.typed? id type (some style))

/-- Reads the third part of a placeholder, by its type. -/
def argument (body : Body) (id type : String) : Reader Element :=
  match PluralKind.ofName? type with
  | some kind => pluralArgument body id kind
  | none => if type = selectType then selectArgument body id else styleArgument body id type

/-- Reads the comma between two parts of a placeholder. -/
def separator : Reader Unit := demand ',' .comma .separatorOrClose

/-- Reads the closing brace of a placeholder. -/
def close : Reader Unit := do
  space
  demand '\x7d' .closeBrace .close

/-- Reads what follows the name of an argument and its type. -/
def afterType (body : Body) (id type : String) : Reader Element := do
  space
  if (← peek) == some '\x7d' then
    require (!takesCases type) (.expected (.subMessages type))
    take .closeBrace
    checked (Element.typed? id type none)
  else
    separator
    space
    let element ← argument body id type
    close
    return element

/-- Reads what follows the name of an argument. -/
def afterId (body : Body) (id : String) : Reader Element := do
  space
  if (← peek) == some '\x7d' then
    take .closeBrace
    checked (Element.simple? id)
  else
    separator
    space
    let type ← name .type .placeholderType
    afterType body id type

/-- Reads a placeholder whose opening brace has been read. -/
def placeholder (body : Body) : Reader Element := do
  space
  let id ← name .id .placeholderId
  afterId body id

/-! ## Messages -/

/-- Reads one element: a placeholder, a pound sign that stands for a number, or text. -/
def element (body : Body) (poundIsNumber : Bool) : Reader Element := do
  match ← peek with
  | some '\x7b' =>
    take .openBrace
    placeholder body
  | some '#' =>
    if poundIsNumber then
      take .pound
      return .pound
    else
      -- outside of plural cases the sign is a character like any other
      return .text (← text poundIsNumber)
  | _ => return .text (← text poundIsNumber)

/-- An element takes a brace, a pound sign, or some text. -/
theorem advances_element (body : Body) (poundIsNumber : Bool) {s : List Char}
    (goesOn : closesHere s = false) : (element body poundIsNumber).Advances s := by
  match s, goesOn with
  | c :: t, goesOn =>
    have notClose : (c == '\x7d') = false := goesOn
    refine .bind_right fun next hnext => ?_
    obtain rfl : some c = next := by simpa using hnext
    simp only [run_peek]
    -- a placeholder, a pound sign that is a number or text, or text
    split
    · exact .bind_left (advances_take _ _) _
    · next hc =>
      obtain rfl : c = '#' := by simpa using hc
      split
      · exact .bind_left (advances_take _ _) _
      · next hp => exact .bind_left (advances_text (by simp [isSpecial, isBrace, hp])) _
    · next hopen hpound =>
      refine .bind_left (advances_text ?_) _
      have h₁ : (c == '\x7b') = false := by simpa using fun h => hopen (by rw [h])
      have h₂ : (c == '#') = false := by simpa using fun h => hpound (by rw [h])
      simp [isSpecial, isBrace, h₁, h₂, notClose]

/-- The members of a message. -/
def elementItem (body : Body) (poundIsNumber : Bool) : Item Element where
  toReader := element body poundIsNumber
  length_rest_lt _ a goesOn h := advances_element body poundIsNumber goesOn a h

/-- Reads the elements of a message. A closing brace ends them, but nothing closes at the top. -/
def elements (body : Body) (cx : Context) : Reader Message := do
  let message ← untilClose (elementItem body cx.poundIsNumber)
  -- Below the root the brace is left for whoever opened the message.
  require (!cx.isTopLevel || (← peek) != some '\x7d') .unexpected
  return message

/-- Reads the closing brace after a message. -/
def closed (body : Reader Message) : Reader Message := do
  let message ← body
  demand '\x7d' .closeBrace .subMessageClose
  return message

/-- Reads a message, up to a closing brace or the end. -/
def message (cx : Context) : Reader Message :=
  elements (fun poundIsNumber =>
    if _ : cx.isFull then reject (.tooDeep cx.limit)
    else closed (message (cx.enter poundIsNumber))) cx
termination_by cx.levelsLeft
decreasing_by exact Context.levelsLeft_enter_lt ‹_› poundIsNumber

/-- Reads a message in braces whose opening brace has been read. -/
def subMessage (cx : Context) (poundIsNumber : Bool) : Reader Message :=
  if cx.isFull then reject (.tooDeep cx.limit) else closed (message (cx.enter poundIsNumber))

/-- A message is read through the messages in braces below it. -/
theorem message_eq (cx : Context) : message cx = elements (subMessage cx) cx := by
  rw [message]
  rfl

end Grammar

end MessagePattern
