import MessagePattern.Fault
import MessagePattern.Token

/-!
# Readers

A reader takes a stretch off the front of the unread text, logs it as tokens, and ends with a value or
a fault. It never gives back more text than it was given, which is what lets loops of readers end.

* `Reply` — what a reader makes of a text;
* `Reader` — a function from texts to replies that leave no more than they were given;
* `Reader.bind` — one reader after another, with the logs joined;
* `Reader.lexeme` — the one way to consume text: a front part of given width, logged as one token;
* `Reader.untilClose` — one reader again and again, up to a closing brace or the end.
-/

namespace MessagePattern

/-- What a reader makes of a text. -/
structure Reply (α : Type) where
  /-- The value read, or the fault at which reading stopped. -/
  result : Except Fault α
  /-- The tokens logged, also before a fault. -/
  tokens : List Token
  /-- The text left unread; a fault is at its front. -/
  rest : List Char

/-- Reads on after a reply, unless it ended in a fault. -/
def Reply.andThen {α β : Type} (r : Reply α) (next : α → List Char → Reply β) : Reply β :=
  match r.result with
  | .ok a =>
    let after := next a r.rest
    ⟨after.result, r.tokens ++ after.tokens, after.rest⟩
  | .error fault => ⟨.error fault, r.tokens, r.rest⟩

/-- A function from texts to replies that leave no more text than they were given. -/
structure Reader (α : Type) where
  run : List Char → Reply α
  length_rest_le : ∀ s, (run s).rest.length ≤ s.length

namespace Reader

variable {α β : Type}

/-- Reads nothing and gives a value. -/
protected def pure (a : α) : Reader α where
  run s := ⟨.ok a, [], s⟩
  length_rest_le _ := Nat.le_refl _

/-- Reads nothing and stops. -/
def fail (fault : Fault) : Reader α where
  run s := ⟨.error fault, [], s⟩
  length_rest_le _ := Nat.le_refl _

/-- One reader, and then another that may depend on its value. -/
protected def bind (p : Reader α) (next : α → Reader β) : Reader β where
  run s := (p.run s).andThen fun a t => (next a).run t
  length_rest_le s := by
    have h := p.length_rest_le s
    unfold Reply.andThen
    split
    · exact Nat.le_trans ((next _).length_rest_le _) h
    · exact h

instance : Monad Reader where
  pure := Reader.pure
  bind := Reader.bind

@[simp] theorem run_pure (a : α) (s : List Char) :
    (pure a : Reader α).run s = ⟨.ok a, [], s⟩ := rfl

@[simp] theorem run_fail (fault : Fault) (s : List Char) :
    (fail fault : Reader α).run s = ⟨.error fault, [], s⟩ := rfl

@[simp] theorem run_bind (p : Reader α) (next : α → Reader β) (s : List Char) :
    (p >>= next).run s = (p.run s).andThen fun a t => (next a).run t := rfl

/-- Stops because the pattern breaks the grammar. -/
def reject (cause : Violation) : Reader α :=
  fail (.violation cause)

/-- Gives a node, or stops because it is refused. -/
def checked (node : Except NodeError α) : Reader α :=
  match node with
  | .ok a => pure a
  | .error cause => fail (.invalidNode cause)

/-- Looks at the unread text without reading any of it. -/
def lookAhead : Reader (List Char) where
  run s := ⟨.ok s, [], s⟩
  length_rest_le _ := Nat.le_refl _

@[simp] theorem run_lookAhead (s : List Char) : lookAhead.run s = ⟨.ok s, [], s⟩ := rfl

/-- Looks at the next character. -/
def peek : Reader (Option Char) := do
  return (← lookAhead).head?

@[simp] theorem run_peek (s : List Char) : peek.run s = ⟨.ok s.head?, [], s⟩ := rfl

/-- Reads a front part of the unread text, of the width that `width` gives, and logs it as one token;
an empty part is not logged. -/
def lexeme (kind : Token.Kind) (width : List Char → Nat) : Reader String where
  run s :=
    let text := String.ofList (s.take (width s))
    ⟨.ok text, if text.isEmpty then [] else [⟨kind, text⟩], s.drop (width s)⟩
  length_rest_le s := by simp

/-- Reads the next character, whatever it is, and logs it; stops at the end. -/
def take (kind : Token.Kind) : Reader Unit := do
  match ← peek with
  | some _ => let _ ← lexeme kind fun _ => 1
  | none => fail .endOfSource

/-- Stops because the pattern breaks the grammar, unless a condition holds. -/
def require (condition : Bool) (cause : Violation) : Reader Unit :=
  if condition then pure () else reject cause

/-- Reads a given character, which the grammar calls for. -/
def demand (c : Char) (kind : Token.Kind) (what : Expectation) : Reader Unit := do
  require ((← peek) == some c) (.expected what)
  take kind

/-- Whether a list of things inside a placeholder ends here: at a closing brace, or at the end. -/
def closesHere : List Char → Bool
  | [] => true
  | c :: _ => c == '\x7d'

/-- A reader that reads something wherever a list does not end. -/
structure Item (α : Type) extends Reader α where
  /-- Where the list goes on and the reader succeeds, it leaves less text than it was given. -/
  length_rest_lt : ∀ s a, closesHere s = false → (run s).result = .ok a →
    (run s).rest.length < s.length

/-- The reply of one item after another. -/
def untilCloseRun (item : Item α) (s : List Char) : Reply (List α) :=
  if ends : closesHere s = true then ⟨.ok [], [], s⟩
  else
    match h : item.run s with
    | ⟨.error fault, tokens, rest⟩ => ⟨.error fault, tokens, rest⟩
    | ⟨.ok a, tokens, rest⟩ =>
      have : rest.length < s.length := by
        simpa [h] using item.length_rest_lt s a (by simpa using ends) (by rw [h])
      let more := untilCloseRun item rest
      ⟨more.result.map (a :: ·), tokens ++ more.tokens, more.rest⟩
termination_by s.length

/-- Reading a list takes characters away, if anything. -/
theorem length_rest_untilCloseRun_le (item : Item α) (s : List Char) :
    (untilCloseRun item s).rest.length ≤ s.length := by
  fun_induction untilCloseRun item s with
  | case1 => exact Nat.le_refl _
  | case2 s _ fault tokens rest h => simpa [h] using item.length_rest_le s
  | case3 s _ a tokens rest h _ more ih =>
    have := item.length_rest_le s
    rw [h] at this
    exact Nat.le_trans ih this

/-- Reads one item after another, up to a closing brace or the end. -/
def untilClose (item : Item α) : Reader (List α) where
  run := untilCloseRun item
  length_rest_le := length_rest_untilCloseRun_le item

end Reader

end MessagePattern
