import MessagePattern.Reader.Lexeme

/-!
# Progress

When a reader is bound to have read something once it succeeds. Lists of elements and of cases go on as
long as there is text, so what reads one member has to get on.

* `Reader.Advances` — on a given text, success leaves less text;
* `Reader.advances_demand`, `Reader.advances_text` — what always gets on.
-/

namespace MessagePattern.Reader

variable {α β : Type}

/-- On this text, a reader that succeeds leaves less text than it was given. -/
def Advances (p : Reader α) (s : List Char) : Prop :=
  ∀ a, (p.run s).result = .ok a → (p.run s).rest.length < s.length

/-- A sequence takes a character if its first reader does. -/
theorem Advances.bind_left {p : Reader α} {s : List Char} (h : p.Advances s)
    (next : α → Reader β) : (p >>= next).Advances s := by
  intro b hb
  simp only [run_bind, Reply.andThen] at hb ⊢
  split
  · next a ha =>
    exact Nat.lt_of_le_of_lt ((next a).length_rest_le _) (h a ha)
  · next fault hf => simp [hf] at hb

/-- A sequence takes a character if its second reader does, where the first has left off. -/
theorem Advances.bind_right {p : Reader α} {s : List Char} {next : α → Reader β}
    (h : ∀ a, (p.run s).result = .ok a → (next a).Advances (p.run s).rest) :
    (p >>= next).Advances s := by
  intro b hb
  simp only [run_bind, Reply.andThen] at hb ⊢
  split
  · next a ha =>
    simp only [ha] at hb
    exact Nat.lt_of_lt_of_le (h a ha b hb) (p.length_rest_le s)
  · next fault hf => simp [hf] at hb

/-- Taking a character gets on, or fails. -/
theorem advances_take (kind : Token.Kind) (s : List Char) : (take kind).Advances s := by
  cases s with
  | nil => exact fun a ha => by simp [take, Reply.andThen] at ha
  | cons c t => exact fun a _ => by simp [take, Reply.andThen, lexeme]

/-- Reading a character that the grammar calls for gets on, or fails. -/
theorem advances_demand (c : Char) (kind : Token.Kind) (what : Expectation) (s : List Char) :
    (demand c kind what).Advances s :=
  .bind_right fun _ _ => .bind_right fun _ _ => advances_take _ _

/-- Reading message text gets on, unless a special character stands in front. -/
theorem advances_text {poundIsNumber : Bool} {c : Char} {t : List Char}
    (h : isSpecial poundIsNumber c = false) : (text poundIsNumber).Advances (c :: t) := by
  intro a _
  have hne := (Dialect.text poundIsNumber).scan_glyphs_ne_nil (t := t) h
  have hsource := Stretch.source_append_rest (Dialect.text poundIsNumber) false (c :: t)
  have hpos : 0 < (Glyph.sourceOf ((Dialect.text poundIsNumber).scan false (c :: t)).glyphs).length := by
    cases hg : ((Dialect.text poundIsNumber).scan false (c :: t)).glyphs with
    | nil => exact absurd hg hne
    | cons g gs => cases g <;> simp [Glyph.source]
  simp only [text, run_bind, run_lookAhead, Reply.andThen, lexeme, run_pure, List.length_drop,
    List.length_cons]
  omega

end MessagePattern.Reader
