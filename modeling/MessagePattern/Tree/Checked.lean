import MessagePattern.Tree.Basic

/-!
# Checked construction of trees

Trees are built by hand as well as read from patterns. The constructors here refuse what no pattern
could say: nameless arguments, styles on arguments that take sub-messages, negative offsets, and lists
of cases that are empty or lack the case for everything else.

* `NodeError` — why a node is refused, with its wording in `NodeError.message`;
* `Case.make?`, `Element.simple?`, `Element.typed?`, `Element.plural?`, `Element.select?`.
-/

namespace MessagePattern

/-- What is offered as the offset of a plural placeholder. -/
inductive OffsetCandidate where
  | integer (n : Int)
  /-- A truth value, which is never an offset. -/
  | truth (b : Bool)
  deriving DecidableEq, Repr

/-- How a refused offset is shown. -/
def OffsetCandidate.shown : OffsetCandidate → String
  | .integer n => toString n
  | .truth true => "True"
  | .truth false => "False"

/-- The offset, if it is a natural number. -/
def OffsetCandidate.toNat? : OffsetCandidate → Option Nat
  | .integer n => n.toNat?
  | .truth _ => none

/-- The names that may not be empty. -/
inductive NameRole where
  | placeholderId | placeholderType | caseSelector
  deriving DecidableEq, Repr

/-- How a name is called in a message. -/
def NameRole.text : NameRole → String
  | .placeholderId => "Placeholder id"
  | .placeholderType => "Placeholder type"
  | .caseSelector => "Case selector"

/-- Why a node is refused. -/
inductive NodeError where
  | emptyName (role : NameRole)
  /-- A type that takes sub-messages is given a style, or nothing. -/
  | casesNeeded (type : String)
  | emptyStyle
  | badOffset (given : OffsetCandidate)
  /-- A select placeholder is given a plural type. -/
  | pluralType (type : String)
  | noCases (construct : String)
  /-- A list of cases lacks the case for everything else. -/
  | noOther (construct : String)
  deriving DecidableEq, Repr

/-- The wording of a refusal. -/
def NodeError.message : NodeError → String
  | .emptyName role => role.text ++ " must be a non-empty string"
  | .casesNeeded type => "'" ++ type ++ "' arguments need sub-messages, not a style"
  | .emptyStyle => "Placeholder style must be None or a non-empty string"
  | .badOffset given => "Plural offset must be a non-negative integer, got " ++ given.shown
  | .pluralType type => "'" ++ type ++ "' arguments are PluralPlaceholder nodes"
  | .noCases construct => construct ++ " placeholder requires at least one case"
  | .noOther construct => "\"" ++ otherSelector ++ "\" case is required in " ++ construct

/-- Refuses an empty name. -/
def checkName (role : NameRole) (name : String) : Except NodeError Unit :=
  if name.isEmpty then .error (.emptyName role) else .ok ()

/-- Refuses an empty list of cases and, where one is required, a list without the case for everything
else. -/
def checkCases (construct : String) (needsOther : Bool) (cases : List (Case Element)) :
    Except NodeError Unit :=
  if cases.isEmpty then .error (.noCases construct)
  else if needsOther && cases.all (fun c => c.selector != otherSelector) then
    .error (.noOther construct)
  else .ok ()

/-- Whether an argument type selects by plural category. -/
def isPluralType (type : String) : Bool :=
  (PluralKind.ofName? type).isSome

/-- Whether an argument type always takes sub-messages and requires the case for everything else. -/
def takesCases (type : String) : Bool :=
  isPluralType type || type == selectType

/-- A case with a selector. -/
def Case.make? (selector : String) (message : Message) : Except NodeError (Case Element) := do
  checkName .caseSelector selector
  return ⟨selector, message⟩

namespace Element

/-- A bare argument with a name. -/
def simple? (id : String) : Except NodeError Element := do
  checkName .placeholderId id
  return .simple id

/-- A formatted argument, of a type that takes no sub-messages. -/
def typed? (id type : String) (style : Option String) : Except NodeError Element := do
  checkName .placeholderId id
  checkName .placeholderType type
  if takesCases type then
    throw (.casesNeeded type)
  if style == some "" then
    throw .emptyStyle
  return .typed id type style

/-- A plural placeholder with a natural offset and a case for everything else. -/
def plural? (id : String) (kind : PluralKind) (offset : OffsetCandidate)
    (cases : List (Case Element)) : Except NodeError Element := do
  checkName .placeholderId id
  match offset.toNat? with
  | none => throw (.badOffset offset)
  | some n =>
    checkCases kind.name true cases
    return .plural id kind n cases

/-- A select placeholder. Only the built-in type requires a case for everything else. -/
def select? (id type : String) (cases : List (Case Element)) : Except NodeError Element := do
  checkName .placeholderId id
  checkName .placeholderType type
  if isPluralType type then
    throw (.pluralType type)
  checkCases type (type == selectType) cases
  return .select id type cases

end Element

end MessagePattern
