import MessagePattern.Proofs.Lexemes

/-!
# How derivations go on

A derivation from the front part of a text is one from that part before other texts
too, as long as the other text does not change the meaning of an apostrophe at the
end of the part. Where the part reaches to the end of the text, an apostrophe may
have to be put in between: it closes a quoted run that was left open, or is paired
with an apostrophe that stood alone.

* `Declared.Outside`, `Declared.Fits` — when a text may take the place of another one;
* `Declared.Passage.exists_append`, `Declared.Cases.exists_append`,
  `Declared.Elements.exists_append` — the same derivation before another text;
* `Declared.Style.exists_closing`, `Declared.Elements.exists_closing` — a derivation
  before a closing brace;
* `Declared.Elements.mono`, `Declared.messageAt_succ` — more may stand in braces, or
  nest.
-/

namespace MessagePattern.Declared

/-! ## Runs -/

/-- A text that does not begin with a character of a class. -/
def Outside (test : Char → Bool) (s : List Char) : Prop := ∀ c ∈ s.head?, test c = false

/-- A text that begins with a character outside is outside, whatever follows. -/
theorem outside_cons {test : Char → Bool} {c : Char} (h : test c = false)
    (s : List Char) : Outside test (c :: s) := by
  intro b hb
  obtain rfl : c = b := by simpa using hb
  exact h

/-- Text that is taken over begins as before. -/
theorem Outside.append {test : Char → Bool} {x t t' : List Char}
    (h : Outside test (x ++ t)) (h' : x = [] → Outside test t') :
    Outside test (x ++ t') := by
  cases x with
  | nil => exact h' rfl
  | cons c x => exact h

/-- A run ends as well before any other text outside of its class. -/
theorem Run.before {test : Char → Bool} {x t t' w : List Char} (h : Run test (x ++ t) w t)
    (hOutside : Outside test t') : Run test (x ++ t') w t' := by
  obtain rfl : x = w := List.append_cancel_right h.split
  exact ⟨rfl, h.inside, hOutside⟩

/-- Blanks end in front of any text that does not begin with a blank. -/
theorem Blanks.before {x t t' : List Char} (h : Blanks (x ++ t) t)
    (hOutside : Outside isBlank t') : Blanks (x ++ t') t' :=
  h.imp fun _ hRun => hRun.before hOutside

/-- A word ends in front of any text that does not begin with a character of words. -/
theorem Word.before {x t t' : List Char} {w : String} (h : Word (x ++ t) w t)
    (hOutside : Outside isWordChar t') : Word (x ++ t') w t' :=
  ⟨h.1.before hOutside, h.2⟩

/-- There may be no blanks at all. -/
theorem blanks_self {s : List Char} (h : Outside isBlank s) : Blanks s s :=
  ⟨[], rfl, by simp, h⟩

/-- A closing brace may stand at once. -/
theorem mark_here (k : List Char) : Mark '\x7d' ('\x7d' :: k) k :=
  blanks_self (outside_cons (by decide) k)

/-- Where the keyword of an offset clause stands, the clause is read as well before
a text that begins as before, or that begins with neither a blank nor a digit. -/
theorem Offset.before {x t t' : List Char} {n : Nat} (h : Offset (x ++ t) n t)
    (hKeyword : "offset:".toList <+: x ++ t)
    (hHead : t'.head? = t.head? ∨ Outside isBlank t' ∧ Outside Char.isDigit t') :
    Offset (x ++ t') n t' := by
  -- what ended in front of the old rest ends in front of the new one
  have hTaken : ∀ {test}, Outside test t →
      (Outside isBlank t' ∧ Outside Char.isDigit t' → Outside test t') →
      Outside test t' := by
    intro test hOutside hNew
    rcases hHead with hSame | hFresh
    · rw [Outside, hSame]
      exact hOutside
    · exact hNew hFresh
  generalize hText : x ++ t = s at h
  cases h with
  | none hNone => exact absurd (hText ▸ hKeyword) hNone
  | @clause _ _ digits _ _ hBefore hRun hSome hShort hAfter =>
    obtain ⟨lead, rfl, hLead, hLeadEnd⟩ := hBefore
    obtain ⟨rfl, hDigits, hDigitsEnd⟩ := hRun
    obtain ⟨tail, rfl, hTail, hTailEnd⟩ := hAfter
    -- the clause is all that was read, and it stands in front of the new rest
    obtain rfl : x = "offset:".toList ++ (lead ++ (digits ++ tail)) := by
      refine List.append_cancel_right (hText.trans ?_)
      simp only [List.append_assoc]
    have hNew : "offset:".toList ++ (lead ++ (digits ++ tail)) ++ t' =
        "offset:".toList ++ (lead ++ (digits ++ (tail ++ t'))) := by
      simp only [List.append_assoc]
    -- the digits are not empty, so they alone end the blanks in front of them
    have hBlanks : Blanks (lead ++ (digits ++ (tail ++ t')))
      (digits ++ (tail ++ t')) := by
      refine ⟨lead, rfl, hLead, Outside.append hLeadEnd fun hNil => ?_⟩
      simp [hNil] at hSome
    have hRun : Run Char.isDigit (digits ++ (tail ++ t')) digits (tail ++ t') := by
      refine ⟨rfl, hDigits, Outside.append hDigitsEnd fun hNil => hTaken ?_ And.right⟩
      subst hNil
      exact hDigitsEnd
    rw [hNew]
    exact .clause hBlanks hRun hSome hShort ⟨tail, rfl, hTail, hTaken hTailEnd And.left⟩

/-! ## Apostrophes -/

/-- A text may take the place of another one if it begins alike, or if the other one
begins with what can be quoted and it does not begin with an apostrophe. -/
def Fits (opens : Char → Bool) (t t' : List Char) : Prop :=
  t'.head? = t.head? ∨ (∃ c, t.head? = some c ∧ opens c = true) ∧ t'.head? ≠ some '\''

/-- What is read in front makes the rest fit. -/
theorem Fits.append {opens : Char → Bool} {t t' : List Char} (h : Fits opens t t')
    (x : List Char) : Fits opens (x ++ t) (x ++ t') := by
  cases x with
  | nil => exact h
  | cons c y => exact .inl rfl

/-- A quoted run is read in front of any text that may take the place of the rest. -/
theorem Quoted.exists_append {s v t : List Char} (h : Quoted s v t) :
    ∃ x, s = x ++ t ∧ ∀ {opens : Char → Bool} {t'}, Fits opens t t' →
      Quoted (x ++ t') v t' := by
  induction h with
  | unclosed =>
    refine ⟨[], rfl, fun {opens t'} hFits => ?_⟩
    rcases hFits with hHead | ⟨⟨c, hc, -⟩, -⟩
    · -- a run that is not closed reaches to the end, so nothing may follow
      obtain rfl : t' = [] := List.head?_eq_none_iff.mp hHead
      exact .unclosed
    · simp at hc
  | @close s hNoPair =>
    -- the apostrophe closes the run as long as it is not doubled
    refine ⟨['\''], rfl, fun {opens t'} hFits => .close ?_⟩
    show t'.head? ≠ some '\''
    rcases hFits with hHead | ⟨-, hHead⟩
    · rw [hHead]
      exact hNoPair
    · exact hHead
  | pair _ ih =>
    obtain ⟨x, rfl, hAny⟩ := ih
    exact ⟨'\'' :: '\'' :: x, rfl, fun hFits => .pair (hAny hFits)⟩
  | @char c _ _ _ hChar _ ih =>
    obtain ⟨x, rfl, hAny⟩ := ih
    exact ⟨c :: x, rfl, fun hFits => .char hChar (hAny hFits)⟩

/-- A piece is read in front of any text that may take the place of the rest. -/
theorem Piece.exists_append {opens : Char → Bool} {c : Char} {s v t : List Char}
    (h : Piece opens (c :: s) v t) :
    ∃ x, s = x ++ t ∧ ∀ {t'}, Fits opens t t' → Piece opens (c :: (x ++ t')) v t' := by
  cases h with
  | plain hPlain => exact ⟨[], rfl, fun _ => .plain hPlain⟩
  | pair => exact ⟨['\''], rfl, fun _ => .pair⟩
  | @quoted b u _ _ hNotQuote hOpens hQuoted =>
    cases hQuoted with
    | close => exact absurd rfl hNotQuote
    | pair => exact absurd rfl hNotQuote
    | char _ hMore =>
      obtain ⟨x, rfl, hAny⟩ := hMore.exists_append
      exact ⟨b :: x, rfl, fun hFits =>
        .quoted hNotQuote hOpens (.char hNotQuote (hAny hFits))⟩
  | lone hLone =>
    refine ⟨[], rfl, fun {t'} hFits => .lone ?_⟩
    show ∀ b ∈ t'.head?, b ≠ '\'' ∧ opens b = false
    -- a lone apostrophe looks at the next character, and so it must not begin to quote
    rcases hFits with hHead | ⟨⟨b, hb, hOpens⟩, -⟩
    · rw [hHead]
      exact hLone
    · exact absurd ((hLone b hb).2.symm.trans hOpens) (by decide)

/-- A passage is read in front of any text that may take the place of the rest and begins with a stop
character. -/
theorem Passage.exists_append {stops opens : Char → Bool} {s v t : List Char}
    (h : Passage stops opens s v t) :
    ∃ x, s = x ++ t ∧ ∀ {t'}, Fits opens t t' → (∀ c ∈ t'.head?, stops c = true) →
      Passage stops opens (x ++ t') v t' := by
  induction h with
  | stop hStops => exact ⟨[], rfl, fun _ hStops' => .stop hStops'⟩
  | @more c s v t₁ w t hGoesOn hPiece _ ih =>
    -- the pieces behind this one make the rest fit
    obtain ⟨x₁, rfl, hAny₁⟩ := hPiece.exists_append
    obtain ⟨x₂, rfl, hAny₂⟩ := ih
    refine ⟨c :: (x₁ ++ x₂), by simp, fun {t'} hFits hStops' => ?_⟩
    have hText : c :: (x₁ ++ x₂) ++ t' = c :: (x₁ ++ (x₂ ++ t')) := by simp
    rw [hText]
    exact .more hGoesOn (hAny₁ (hFits.append x₂)) (hAny₂ hFits hStops')

/-! ### Up to a closing brace -/

/-- A quoted run that the text ends can be closed by hand, if it is not closed already. -/
theorem Quoted.exists_closing {s v t : List Char} (h : Quoted s v t) (hEnd : t = []) :
    ∃ q, ∀ k, ∃ v', Quoted (s ++ (q ++ '\x7d' :: k)) v' ('\x7d' :: k) := by
  induction h with
  -- a run that is open is closed by an apostrophe
  | unclosed => exact ⟨['\''], fun k => ⟨_, .close (by simp)⟩⟩
  | close =>
    subst hEnd
    exact ⟨[], fun k => ⟨_, .close (by simp)⟩⟩
  | pair _ ih =>
    obtain ⟨q, hAny⟩ := ih hEnd
    exact ⟨q, fun k => let ⟨_, hMore⟩ := hAny k; ⟨_, .pair hMore⟩⟩
  | char hChar _ ih =>
    obtain ⟨q, hAny⟩ := ih hEnd
    exact ⟨q, fun k => let ⟨_, hMore⟩ := hAny k; ⟨_, .char hChar hMore⟩⟩

/-- A last piece stands before a closing brace too, if a quoted run is closed before
the brace, and a lone apostrophe is paired. -/
theorem Piece.exists_closing {opens : Char → Bool} {c : Char} {s v : List Char}
    (h : Piece opens (c :: s) v []) :
    ∃ q, ∀ k, ∃ v', Piece opens (c :: (s ++ (q ++ '\x7d' :: k))) v' ('\x7d' :: k) := by
  cases h with
  | plain hPlain => exact ⟨[], fun k => ⟨_, .plain hPlain⟩⟩
  | pair => exact ⟨[], fun k => ⟨_, .pair⟩⟩
  | quoted hNotQuote hOpens hQuoted =>
    obtain ⟨q, hAny⟩ := hQuoted.exists_closing rfl
    exact ⟨q, fun k => let ⟨_, hMore⟩ := hAny k; ⟨_, .quoted hNotQuote hOpens hMore⟩⟩
  | lone => exact ⟨['\''], fun k => ⟨_, .pair⟩⟩

/-- A passage that the text ends can be closed by hand, and then stops at a closing brace. -/
theorem Passage.exists_closing {stops opens : Char → Bool} (hBrace : stops '\x7d' = true)
    {s v t : List Char} (h : Passage stops opens s v t) (hEnd : t = []) :
    ∃ q, ∀ k, ∃ v', Passage stops opens (s ++ (q ++ '\x7d' :: k)) v' ('\x7d' :: k) := by
  have hStop : ∀ k, Passage stops opens ('\x7d' :: k) [] ('\x7d' :: k) := fun k =>
    .stop (by simpa using hBrace)
  induction h with
  | stop =>
    subst hEnd
    exact ⟨[], fun k => ⟨_, hStop k⟩⟩
  | @more c s v t₁ w t hGoesOn hPiece _ ih =>
    cases t₁ with
    | nil =>
      -- only the last piece can be open
      obtain ⟨q, hAny⟩ := hPiece.exists_closing
      exact ⟨q, fun k => let ⟨_, hLast⟩ := hAny k; ⟨_, .more hGoesOn hLast (hStop k)⟩⟩
    | cons b u =>
      -- the piece in front ends where it did
      obtain ⟨q, hAny⟩ := ih hEnd
      obtain ⟨x, rfl, hAny₁⟩ := hPiece.exists_append
      refine ⟨q, fun k => ?_⟩
      obtain ⟨v', hMore⟩ := hAny k
      have hText : c :: (x ++ b :: u) ++ (q ++ '\x7d' :: k) =
          c :: (x ++ (b :: u ++ (q ++ '\x7d' :: k))) := by simp
      rw [hText]
      exact ⟨_, .more hGoesOn (hAny₁ (.inl rfl)) hMore⟩

/-- A last piece and the blanks after it stand before a closing brace too. -/
theorem Piece.exists_closing_blanks {c : Char} {s v rest t : List Char}
    (h : Piece (fun _ => true) (c :: s) v rest) (hBlanks : Blanks rest t) :
    ∃ x, s = x ++ t ∧ ∃ q, ∀ k, ∃ v' rest',
      Piece (fun _ => true) (c :: (x ++ (q ++ '\x7d' :: k))) v' rest' ∧
      Mark '\x7d' rest' k := by
  obtain ⟨blanks, rfl, hInside, hOutside⟩ := hBlanks
  by_cases hRest : blanks ++ t = []
  · -- the piece reaches to the end of the text, so it may have to be closed
    obtain ⟨rfl, rfl⟩ := List.append_eq_nil_iff.mp hRest
    obtain ⟨q, hAny⟩ := h.exists_closing
    refine ⟨s, by simp, q, fun k => ?_⟩
    obtain ⟨v', hLast⟩ := hAny k
    exact ⟨v', _, hLast, mark_here k⟩
  · -- blanks follow, or a text that is no apostrophe
    obtain ⟨x, rfl, hAny⟩ := h.exists_append
    have hMark : ∀ k, Mark '\x7d' (blanks ++ '\x7d' :: k) k := fun k =>
      ⟨blanks, rfl, hInside, outside_cons (by decide) k⟩
    have hFits : ∀ k, Fits (fun _ => true) (blanks ++ t) (blanks ++ '\x7d' :: k) := by
      intro k
      cases blanks with
      | nil =>
        obtain ⟨b, u, rfl⟩ := List.exists_cons_of_ne_nil hRest
        exact .inr ⟨⟨b, rfl, rfl⟩, by simp⟩
      | cons b blanks => exact .inl rfl
    refine ⟨x ++ blanks, by simp, [], fun k => ⟨v, blanks ++ '\x7d' :: k, ?_, hMark k⟩⟩
    rw [List.append_assoc, List.nil_append]
    exact hAny (hFits k)

/-- A style does not begin with a brace, so it is not empty where a brace follows
the blanks after it. -/
theorem Style.ne_nil {x t v rest : List Char} (h : Style (x ++ t) v rest)
    (hEnd : ∀ b ∈ t.head?, isBrace b = true) : x ≠ [] := by
  obtain ⟨c, s, hText, hNoBrace⟩ : ∃ c s, x ++ t = c :: s ∧ isBrace c = false := by
    generalize x ++ t = s at h
    cases h with
    | last hNoBrace => exact ⟨_, _, rfl, hNoBrace⟩
    | more hNoBrace => exact ⟨_, _, rfl, hNoBrace⟩
  rintro rfl
  rw [List.nil_append] at hText
  subst hText
  exact absurd (hEnd c rfl) (by simp [hNoBrace])

/-- A style and the blanks after it stand before a closing brace too. -/
theorem Style.exists_closing {s v rest t : List Char} (h : Style s v rest)
    (hBlanks : Blanks rest t) (hEnd : ∀ b ∈ t.head?, isBrace b = true) :
    ∃ x, s = x ++ t ∧ ∃ q, ∀ k, ∃ v' rest',
      Style (x ++ (q ++ '\x7d' :: k)) v' rest' ∧ Mark '\x7d' rest' k := by
  induction h with
  | @last c s v rest _ hGoesOn hSolid hPiece =>
    -- the last piece is closed, and blanks may follow it
    obtain ⟨x, rfl, q, hAny⟩ := hPiece.exists_closing_blanks hBlanks
    refine ⟨c :: x, rfl, q, fun k => ?_⟩
    obtain ⟨v', rest', hLast, hMark⟩ := hAny k
    exact ⟨v', rest', .last hGoesOn hSolid hLast hMark (by simp [isBrace]), hMark⟩
  | @more c s v t₁ w rest hGoesOn hPiece hStyle ih =>
    obtain ⟨x₂, rfl, q, hAny₂⟩ := ih hBlanks
    obtain ⟨x₁, rfl, hAny₁⟩ := hPiece.exists_append
    refine ⟨c :: (x₁ ++ x₂), by simp, q, fun k => ?_⟩
    obtain ⟨v', rest', hMore, hMark⟩ := hAny₂ k
    -- the style that follows is not empty, so the next piece begins as before
    obtain ⟨b, y, rfl⟩ := List.exists_cons_of_ne_nil (hStyle.ne_nil hEnd)
    have hText : c :: (x₁ ++ b :: y) ++ (q ++ '\x7d' :: k) =
        c :: (x₁ ++ (b :: y ++ (q ++ '\x7d' :: k))) := by simp
    rw [hText]
    exact ⟨_, rest', .more hGoesOn (hAny₁ (.inl rfl)) hMore, hMark⟩

/-! ## More messages in braces -/

section
variable {R R' : Bool → Production Message}
  (hMore : ∀ b s m rest, R b s m rest → R' b s m rest)
include hMore

/-- More messages in braces give more lists of cases. -/
theorem Cases.mono {b : Bool} {s rest : List Char} {entries : List (String × Message)}
    (h : Cases (R b) s entries rest) : Cases (R' b) s entries rest := by
  induction h with
  | nil => exact .nil
  | cons hWord hOpen hMessage hBlanks _ ih =>
    exact .cons hWord hOpen (hMore _ _ _ _ hMessage) hBlanks ih

/-- More messages in braces give more third parts of placeholders. -/
theorem Argument.mono {id type : String} {s rest : List Char} {e : Element}
    (h : Argument R id type s e rest) : Argument R' id type s e rest := by
  cases h with
  | plural kind hKind hOffset hCases hOther =>
    exact .plural kind hKind hOffset (hCases.mono hMore) hOther
  | select hSelect hCases hOther => exact .select hSelect (hCases.mono hMore) hOther
  | custom hPlain hNotSimple hBrace hCases =>
    exact .custom hPlain hNotSimple hBrace (hCases.mono hMore)
  | styled hPlain hStyle hMark => exact .styled hPlain hStyle hMark

/-- More messages in braces give more placeholders. -/
theorem Placeholder.mono {s rest : List Char} {e : Element} (h : Placeholder R s e rest) :
    Placeholder R' s e rest := by
  cases h with
  | simple hBefore hId hMark => exact .simple hBefore hId hMark
  | typed hBefore hId hComma hBetween hType hMark hPlain =>
    exact .typed hBefore hId hComma hBetween hType hMark hPlain
  | full hHeader hArgument => exact .full hHeader (hArgument.mono hMore)

/-- More messages in braces give more messages. -/
theorem Elements.mono {b : Bool} {s rest : List Char} {m : Message}
    (h : Elements R b s m rest) : Elements R' b s m rest := by
  induction h with
  | nil => exact .nil
  | text hRun hNonempty _ ih => exact .text hRun hNonempty ih
  | pound hPound _ ih => exact .pound hPound ih
  | placeholder hPlaceholder _ ih => exact .placeholder (hPlaceholder.mono hMore) ih

end

/-- A message whose cases nest within some levels nests within one more. -/
theorem messageAt_succ {levels : Nat} {b : Bool} {s rest : List Char} {m : Message}
    (h : MessageAt levels b s m rest) : MessageAt (levels + 1) b s m rest := by
  induction levels generalizing b s m rest with
  | zero => exact Elements.mono (fun _ _ _ _ hNone => hNone.elim) h
  | succ levels ih => exact Elements.mono (fun _ _ _ _ hMessage => ih hMessage) h

/-! ## Parts of messages -/

/-- Two lists of cases, one after the other, are one. -/
theorem Cases.append {body : Production Message} {s t rest : List Char}
    {entries more : List (String × Message)} (h : Cases body s entries t)
    (hMore : Cases body t more rest) : Cases body s (entries ++ more) rest := by
  induction h with
  | nil => exact hMore
  | cons hWord hOpen hMessage hBlanks _ ih =>
    exact .cons hWord hOpen hMessage hBlanks (ih hMore)

/-- Two lists of elements, one after the other, are one. -/
theorem Elements.append {R : Bool → Production Message} {b : Bool} {s t rest : List Char}
    {m more : Message} (h : Elements R b s m t) (hMore : Elements R b t more rest) :
    Elements R b s (m ++ more) rest := by
  induction h with
  | nil => exact hMore
  | text hRun hNonempty _ ih => exact .text hRun hNonempty (ih hMore)
  | pound hPound _ ih => exact .pound hPound (ih hMore)
  | placeholder hPlaceholder _ ih => exact .placeholder hPlaceholder (ih hMore)

/-- What is derived is derived whatever follows. -/
def Closed {α : Type} (P : Production α) : Prop :=
  ∀ s a t, P s a t → ∃ x, s = x ++ t ∧ ∀ t', P (x ++ t') a t'

/-- Cases end with a brace and blanks, so they stand before anything but a blank. -/
theorem Cases.exists_append {body : Production Message}
    (hBody : Closed fun s m t => body s m ('\x7d' :: t)) {s t : List Char}
    {entries : List (String × Message)} (h : Cases body s entries t) :
    ∃ x, s = x ++ t ∧ ∀ {t'}, Outside isBlank t' → Cases body (x ++ t') entries t' := by
  induction h with
  | nil => exact ⟨[], rfl, fun _ => .nil⟩
  | @cons s selector t₁ t₂ m t₃ t₄ entries rest hWord hOpen hMessage hBlanks _ ih =>
    obtain ⟨x, rfl, hCases⟩ := ih
    obtain ⟨blanks, rfl, hInside, hOutside⟩ := hBlanks
    obtain ⟨y, rfl, hAny⟩ := hBody _ _ _ hMessage
    obtain ⟨lead, rfl, hLead, -⟩ := hOpen
    obtain ⟨hRun, hNonempty⟩ := hWord
    refine ⟨selector.toList ++ (lead ++ '\x7b' :: (y ++ (blanks ++ x))), ?_,
      fun {t'} hOutside' => ?_⟩
    · rw [hRun.split]
      simp
    · -- the message ends with its brace, so only the blanks after the last case look further
      have hText : selector.toList ++ (lead ++ '\x7b' :: (y ++ (blanks ++ x))) ++ t' =
          selector.toList ++ (lead ++ '\x7b' :: (y ++ (blanks ++ (x ++ t')))) := by simp
      rw [hText]
      refine .cons ⟨⟨rfl, hRun.inside, ?_⟩, hNonempty⟩ ⟨lead, rfl, hLead, ?_⟩ (hAny _)
        ⟨blanks, rfl, hInside, Outside.append hOutside fun _ => hOutside'⟩
        (hCases hOutside')
      · -- the word is followed by what followed it before
        cases lead with
        | nil => exact outside_cons (by decide) _
        | cons c lead => exact hRun.outside
      · exact outside_cons (by decide) _

section
variable {R : Bool → Production Message} (hPlaceholder : Closed (Placeholder R))
include hPlaceholder

/-- Elements stand before any text that fits where text may end. -/
theorem Elements.exists_append {b : Bool} {s t : List Char} {m : Message}
    (h : Elements R b s m t) :
    ∃ x, s = x ++ t ∧ ∀ {t'}, Fits (isSpecial b) t t' →
      (∀ c ∈ t'.head?, isSpecial b c = true) → Elements R b (x ++ t') m t' := by
  induction h with
  | nil => exact ⟨[], rfl, fun _ _ => .nil⟩
  | @text s v t₁ m t hRun hNonempty _ ih =>
    -- by induction: the elements behind the text are read in front of the new rest
    obtain ⟨x₂, rfl, hMore⟩ := ih
    obtain ⟨x₁, rfl, hText⟩ := Passage.exists_append hRun
    refine ⟨x₁ ++ x₂, by simp, fun {t'} hFits hStops => ?_⟩
    rw [List.append_assoc]
    refine .text (hText (hFits.append x₂) ?_) hNonempty (hMore hFits hStops)
    -- text ends where the next element begins
    cases x₂ with
    | nil => exact hStops
    | cons c x₂ =>
      have hStop := Passage.stops_of_rest hRun
      exact hStop
  | @pound s m t hPound _ ih =>
    obtain ⟨x, rfl, hMore⟩ := ih
    exact ⟨'#' :: x, rfl, fun hFits hStops => .pound hPound (hMore hFits hStops)⟩
  | @placeholder s e t₁ m t hHere _ ih =>
    obtain ⟨x₂, rfl, hMore⟩ := ih
    obtain ⟨x₁, rfl, hAny⟩ := hPlaceholder _ _ _ hHere
    refine ⟨'\x7b' :: (x₁ ++ x₂), by simp, fun {t'} hFits hStops => ?_⟩
    have hText : '\x7b' :: (x₁ ++ x₂) ++ t' = '\x7b' :: (x₁ ++ (x₂ ++ t')) := by simp
    rw [hText]
    exact .placeholder (hAny _) (hMore hFits hStops)

/-- Elements that reach to the end of the text stand before a closing brace too, if
the last quoted run is closed, or a lone apostrophe at the end is paired. -/
theorem Elements.exists_closing {b : Bool} {s t : List Char} {m : Message}
    (h : Elements R b s m t) (hEnd : t = []) :
    ∃ q, ∀ k, ∃ m', Elements R b (s ++ (q ++ '\x7d' :: k)) m' ('\x7d' :: k) := by
  induction h with
  | nil =>
    subst hEnd
    exact ⟨[], fun k => ⟨[], .nil⟩⟩
  | @text s v t₁ m t hRun hNonempty hMore ih =>
    cases t₁ with
    | nil =>
      -- this is the last text, so it is closed
      obtain ⟨q, hClosing⟩ :=
        Passage.exists_closing (by simp [isSpecial, isBrace]) hRun rfl
      refine ⟨q, fun k => ?_⟩
      obtain ⟨v', hText⟩ := hClosing k
      refine ⟨_, .text hText ((textRun_value_ne_nil_iff hText).mpr ?_) .nil⟩
      obtain ⟨c, hHead, hPlain⟩ := (textRun_value_ne_nil_iff hRun).mp hNonempty
      obtain ⟨u, rfl⟩ := List.head?_eq_some_iff.mp hHead
      exact ⟨c, rfl, hPlain⟩
    | cons c u =>
      -- the text in front ends where it did
      obtain ⟨q, hClosing⟩ := ih hEnd
      obtain ⟨x, rfl, hText⟩ := Passage.exists_append hRun
      refine ⟨q, fun k => ?_⟩
      obtain ⟨m', hRest⟩ := hClosing k
      have hStop := Passage.stops_of_rest hRun
      rw [List.append_assoc]
      exact ⟨_, .text (hText (.inl rfl) hStop) hNonempty hRest⟩
  | @pound s m t hPound _ ih =>
    obtain ⟨q, hClosing⟩ := ih hEnd
    refine ⟨q, fun k => ?_⟩
    obtain ⟨m', hRest⟩ := hClosing k
    exact ⟨_, .pound hPound hRest⟩
  | @placeholder s e t₁ m t hHere _ ih =>
    -- a placeholder is read in front of anything
    obtain ⟨q, hClosing⟩ := ih hEnd
    obtain ⟨x, rfl, hAny⟩ := hPlaceholder _ _ _ hHere
    refine ⟨q, fun k => ?_⟩
    obtain ⟨m', hRest⟩ := hClosing k
    have hText : '\x7b' :: (x ++ t₁) ++ (q ++ '\x7d' :: k) =
        '\x7b' :: (x ++ (t₁ ++ (q ++ '\x7d' :: k))) := by simp
    rw [hText]
    exact ⟨_, .placeholder (hAny _) hRest⟩

end

end MessagePattern.Declared
