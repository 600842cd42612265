import Mathlib.Data.List.Forall2
import MessagePattern.Proofs.Unspaced
import MessagePattern.Proofs.Written

/-!
# Other blanks

In a pattern that parses, every run of blanks between tokens may be replaced by any other,
as long as it stays a run. The readers look at what comes after a token only to see whether
the next character is a blank, or which one it is if it is none. The keyword of an offset
clause is looked for further ahead, within one word; and a style is scanned up to a brace,
but what is left between the style and the brace are blanks.

* `Token.Respaced` — a token, or other blanks for blanks;
* `Alike` — texts that begin alike, for all that readers see;
* `Reader.RespacesAt` — what is accepted is accepted with other blanks;
* `Reader.RespacesAt.bind`, `Reader.respaces_untilClose` — readers built from readers;
* `Grammar.respaces_message` — messages with other blanks;
* `Parser.parseInto_respaced` — blanks do not matter.
-/

namespace MessagePattern

open Declared

/-! ## Logs with other blanks -/

/-- A token stands for another one: it is the same, or both are runs of blanks. -/
def Token.Respaced (token token' : Token) : Prop :=
  token'.kind = token.kind ∧
    if token.kind = .space then token'.text ≠ "" ∧ token'.text.toList.all isBlank = true
    else token'.text = token.text

instance (token token' : Token) : Decidable (token.Respaced token') :=
  inferInstanceAs (Decidable (_ ∧ _))

/-- A token that is no blank stays as it is. -/
theorem Token.Respaced.eq {token token' : Token} (h : token.Respaced token')
    (hKind : token.kind ≠ .space) : token' = token := by
  obtain ⟨hSame, hText⟩ := h
  rw [if_neg hKind] at hText
  cases token
  cases token'
  simp_all

/-- Two logs are those of one pattern, with other blanks. -/
abbrev Token.AllRespaced (log log' : List Token) : Prop := List.Forall₂ Token.Respaced log log'

/-- A log in two parts is respaced part by part. -/
theorem Token.AllRespaced.exists_append {log more log' : List Token}
    (h : AllRespaced (log ++ more) log') :
    ∃ k k', log' = k ++ k' ∧ AllRespaced log k ∧ AllRespaced more k' :=
  ⟨log'.take log.length, log'.drop log.length, (List.take_append_drop ..).symm,
    (List.forall₂_take_append _ _ _ h.flip).flip, (List.forall₂_drop_append _ _ _ h.flip).flip⟩

/-- A log that begins with a token that is no blank begins with it when it is respaced. -/
theorem Token.AllRespaced.eq_cons {token : Token} {log log' : List Token}
    (h : AllRespaced (token :: log) log') (hKind : token.kind ≠ .space) :
    ∃ k, log' = token :: k ∧ AllRespaced log k := by
  obtain ⟨token', k, hToken, hRest, rfl⟩ := List.forall₂_cons_left_iff.mp h
  exact ⟨k, by rw [hToken.eq hKind], hRest⟩

/-! ## Texts that begin alike -/

/-- Two texts begin with the same word, and with the same character or each with a blank. -/
structure Alike (t t' : List Char) : Prop where
  word : t'.takeWhile isWordChar = t.takeWhile isWordChar
  head : t'.head? = t.head? ∨
    (∃ c ∈ t.head?, isBlank c = true) ∧ ∃ c ∈ t'.head?, isBlank c = true

/-- No blank is a word character. -/
theorem isWordChar_of_isBlank {c : Char} (h : isBlank c = true) : isWordChar c = false := by
  simp [isWordChar, h]

namespace Alike

theorem refl (t : List Char) : Alike t t := ⟨rfl, .inl rfl⟩

theorem symm {t t' : List Char} (h : Alike t t') : Alike t' t :=
  ⟨h.word.symm, h.head.imp Eq.symm And.symm⟩

theorem append {t t' : List Char} (h : Alike t t') (x : List Char) :
    Alike (x ++ t) (x ++ t') := by
  refine ⟨?_, ?_⟩
  · rw [List.takeWhile_append, List.takeWhile_append, h.word]
  · cases x with
    | nil => exact h.head
    | cons c x => exact .inl rfl

/-- Texts that begin with blanks are alike. -/
theorem of_blank {c c' : Char} (hBlank : isBlank c = true) (hBlank' : isBlank c' = true)
    (t t' : List Char) : Alike (c :: t) (c' :: t') := by
  refine ⟨?_, .inr ⟨⟨c, rfl, hBlank⟩, ⟨c', rfl, hBlank'⟩⟩⟩
  -- neither text begins with a word
  have hBreak : ∀ {b : Char}, isBlank b = true → ¬isWordChar b = true := fun hb => by
    simp [isWordChar_of_isBlank hb]
  rw [List.takeWhile_cons_of_neg (hBreak hBlank), List.takeWhile_cons_of_neg (hBreak hBlank')]

section
variable {t t' : List Char} (h : Alike t t')
include h

/-- The character in front is the same, if it is no blank. -/
theorem head?_eq (hSolid : Outside isBlank t) : t'.head? = t.head? := by
  rcases h.head with hSame | ⟨⟨c, hc, hBlank⟩, -⟩
  · exact hSame
  · exact absurd hBlank (by simp [hSolid c hc])

/-- A text that is like one that does not begin with a blank does not begin with one. -/
theorem outside_isBlank (hSolid : Outside isBlank t) : Outside isBlank t' := by
  intro c hc
  rw [h.head?_eq hSolid] at hc
  exact hSolid c hc

/-- A class without blanks goes on in both texts or in none. -/
theorem outside {test : Char → Bool} (hSolid : ∀ c, isBlank c = true → test c = false)
    (hOutside : Outside test t) : Outside test t' := by
  intro c hc
  rcases h.head with hSame | ⟨-, ⟨b, hb, hBlank⟩⟩
  · exact hOutside c (hSame ▸ hc)
  · obtain rfl : b = c := Option.some.inj (hb.symm.trans hc)
    exact hSolid b hBlank

/-- A given character that is no blank stands in front of both texts or of none. -/
theorem head?_beq {c : Char} (hSolid : isBlank c = false) :
    (t'.head? == some c) = (t.head? == some c) := by
  have hNot : ∀ {s : List Char}, (∃ b ∈ s.head?, isBlank b = true) →
      (s.head? == some c) = false := by
    rintro s ⟨b, hb, hBlank⟩
    refine beq_false_of_ne fun hHead => ?_
    obtain rfl : b = c := Option.some.inj (hb.symm.trans hHead)
    exact absurd hBlank (by simp [hSolid])
  rcases h.head with hSame | ⟨hHere, hThere⟩
  · rw [hSame]
  · rw [hNot hHere, hNot hThere]

/-- A list ends at both texts or at neither. -/
theorem closesHere_eq : Reader.closesHere t' = Reader.closesHere t := by
  have hNot : ∀ {s : List Char}, (∃ b ∈ s.head?, isBlank b = true) →
      Reader.closesHere s = false := by
    rintro s ⟨b, hb, hBlank⟩
    obtain ⟨u, rfl⟩ := List.head?_eq_some_iff.mp hb
    refine beq_false_of_ne ?_
    rintro rfl
    exact absurd hBlank (by decide)
  rcases h.head with hSame | ⟨hHere, hThere⟩
  · exact Reader.closesHere_congr hSame
  · rw [hNot hHere, hNot hThere]

/-- What stands within one word stands there in both texts. -/
theorem isPrefix {w : List Char} (hWord : ∀ c ∈ w, isWordChar c = true) (hHere : w <+: t) :
    w <+: t' := by
  obtain ⟨u, rfl⟩ := hHere
  have hFront : w <+: t'.takeWhile isWordChar := by
    rw [h.word, List.takeWhile_append_of_pos hWord]
    exact List.prefix_append ..
  exact hFront.trans (List.takeWhile_prefix _)

end

end Alike

namespace Reader

variable {α β : Type}

/-! ## Readers built from readers -/

/-- What is accepted from this text is accepted with other blanks in it, in front of any text
that begins as the rest does; and the text begins as it did before. -/
def RespacesAt (p : Reader α) (s : List Char) : Prop :=
  ∀ ⦃a t⦄, p.Accepts s a t → ∀ ⦃log'⦄, Token.AllRespaced (p.run s).tokens log' →
    ∀ ⦃t'⦄, Alike t t' → Alike s (Token.joined log' ++ t') ∧
      p.run (Token.joined log' ++ t') = ⟨.ok a, log', t'⟩

/-- What is accepted is accepted with other blanks. -/
def Respaces (p : Reader α) : Prop := ∀ s, p.RespacesAt s

/-- A sequence may be respaced if its parts may, each where it starts. -/
theorem RespacesAt.bind {p : Reader α} {next : α → Reader β} {s : List Char}
    (hFirst : p.RespacesAt s) (hNext : ∀ a t, p.Accepts s a t → (next a).RespacesAt t) :
    (p >>= next).RespacesAt s := by
  intro b u hRun log' hLog t' hAfter
  obtain ⟨a, t, hHere, hThere⟩ := accepts_bind.mp hRun
  rw [tokens_run_bind hHere] at hLog
  obtain ⟨k, k', rfl, hK, hK'⟩ := hLog.exists_append
  -- what the second reader takes begins as it did, so the first reader stops in front of it
  obtain ⟨hMiddle, hSecond⟩ := hNext a t hHere hThere hK' hAfter
  obtain ⟨hFront, hFirst'⟩ := hFirst hHere hK hMiddle
  rw [Token.joined_append, List.append_assoc]
  refine ⟨hFront, ?_⟩
  rw [run_bind_of_ok (by rw [hFirst']), hFirst']
  simp only [hSecond]

theorem Respaces.bind {p : Reader α} {next : α → Reader β} (hFirst : p.Respaces)
    (hNext : ∀ a, (next a).Respaces) : (p >>= next).Respaces := fun s =>
  (hFirst s).bind fun a t _ => hNext a t

/-- What a reader does on all texts that begin alike may be looked at on its own. -/
theorem RespacesAt.of_run_eq {p q : Reader α} {s : List Char} (h : q.RespacesAt s)
    (hRun : ∀ s', Alike s s' → p.run s' = q.run s') : p.RespacesAt s := by
  intro a t hAccepts log' hLog t' hAfter
  have hHere := hRun s (.refl s)
  rw [Accepts, hHere] at hAccepts
  rw [hHere] at hLog
  obtain ⟨hFront, hThere⟩ := h hAccepts hLog hAfter
  exact ⟨hFront, (hRun _ hFront).trans hThere⟩

/-- What reads nothing may be respaced. -/
theorem respaces_of_idle {p : Reader α} (h : p.Idle) : p.Respaces := by
  intro s a t hAccepts log' hLog t' hAfter
  have hAny := h s a t hAccepts
  obtain rfl : s = t := by
    rw [← hAccepts.2, hAny s]
  rw [hAny s] at hLog
  obtain rfl := List.forall₂_nil_left_iff.mp hLog
  exact ⟨hAfter, hAny t'⟩

/-- A value that is given may be respaced, as nothing is read. -/
theorem respaces_pure (a : α) : (pure a : Reader α).Respaces := respaces_of_idle (idle_pure a)

theorem respaces_checked (node : Except NodeError α) : (checked node).Respaces :=
  respaces_of_idle (idle_checked node)

theorem respaces_require (condition : Bool) (cause : Violation) :
    (require condition cause).Respaces := by
  refine respaces_of_idle fun s a t hAccepts s' => ?_
  rw [(accepts_require.mp hAccepts).1]
  rfl

/-! ### Blanks -/

/-- Blanks may be put for blanks, and are all skipped. -/
theorem respaces_space : space.Respaces := by
  intro s u t hAccepts log' hLog t' hAfter
  obtain ⟨run, hRun⟩ := accepts_space.mp hAccepts
  have hEnd : Outside isBlank t' := hAfter.outside_isBlank hRun.outside
  rw [run_space hRun] at hLog
  cases run with
  | nil =>
    -- no blanks are put where none are
    obtain rfl := List.forall₂_nil_left_iff.mp hLog
    obtain rfl : s = t := hRun.split
    exact ⟨hAfter, run_space ⟨rfl, by simp, hEnd⟩⟩
  | cons c run =>
    rw [if_neg (by simp)] at hLog
    -- the one token may hold other blanks, and at least one
    obtain ⟨⟨kind, text⟩, rest, ⟨hKind, hText⟩, hRest, rfl⟩ :=
      List.forall₂_cons_left_iff.mp hLog
    obtain rfl := List.forall₂_nil_left_iff.mp hRest
    obtain rfl : kind = .space := hKind
    rw [if_pos rfl] at hText
    obtain ⟨hSome, hAll⟩ := hText
    have hBlank := List.all_eq_true.mp hAll
    have hSome' : text.toList ≠ [] := by simpa using hSome
    have hJoined : Token.joined [⟨.space, text⟩] = text.toList := by simp [Token.joined]
    rw [hJoined]
    refine ⟨?_, ?_⟩
    · obtain ⟨c', run', hText⟩ := List.exists_cons_of_ne_nil hSome'
      -- both texts begin with a blank, and the new blanks are read as far as the old ones were
      rw [hRun.split, hText]
      exact .of_blank (hRun.inside c (List.mem_cons_self ..))
        (hBlank c' (by simp [hText])) _ _
    · rw [run_space ⟨rfl, hBlank, hEnd⟩, if_neg hSome', String.ofList_toList]

/-! ### Tokens that are no blanks -/

/-- A reader that takes the same token whatever blanks follow. -/
theorem respacesAt_of_token {p : Reader α} {kind : Token.Kind} (hKind : kind ≠ .space)
    {w t : List Char} {a : α}
    (hRun : ∀ t', Alike t t' → p.run (w ++ t') = ⟨.ok a, [⟨kind, String.ofList w⟩], t'⟩) :
    p.RespacesAt (w ++ t) := by
  intro b u hAccepts log' hLog t' hAfter
  have hHere := hRun t (.refl t)
  rw [Accepts, hHere] at hAccepts
  obtain ⟨hValue, rfl⟩ := hAccepts
  rw [hHere] at hLog
  -- the log is one token that is no blank, so it stays
  obtain ⟨k, rfl, hNil⟩ := hLog.eq_cons hKind
  obtain rfl := List.forall₂_nil_left_iff.mp hNil
  have hJoined : Token.joined [⟨kind, String.ofList w⟩] = w := by simp [Token.joined]
  rw [hJoined, ← hValue]
  exact ⟨hAfter.append w, hRun t' hAfter⟩

/-- A token that is taken may be followed by other blanks. -/
theorem respaces_take {kind : Token.Kind} (hKind : kind ≠ .space) : (take kind).Respaces := by
  intro s a t hAccepts
  obtain ⟨c, rfl⟩ := accepts_take.mp hAccepts
  exact respacesAt_of_token (w := [c]) hKind (fun t' _ => run_take_cons kind c t') hAccepts

/-- A demanded character may be followed by other blanks. -/
theorem respaces_demand (c : Char) {kind : Token.Kind} (hKind : kind ≠ .space)
    (what : Expectation) : (demand c kind what).Respaces := by
  intro s a t hAccepts
  obtain rfl := accepts_demand.mp hAccepts
  exact respacesAt_of_token (w := [c]) hKind (fun t' _ => run_demand_cons c kind what t')
    hAccepts

/-- A name may be followed by other blanks, as it does not go on with a blank. -/
theorem respaces_name {kind : Token.Kind} (hKind : kind ≠ .space) (what : Expectation) :
    (name kind what).Respaces := by
  intro s w t hAccepts
  have hWord := accepts_name.mp hAccepts
  obtain rfl := hWord.1.split
  refine respacesAt_of_token (a := w) hKind (fun t' hAfter => ?_) hAccepts
  have hNext : Outside isWordChar t' :=
    hAfter.outside (fun _ hBlank => isWordChar_of_isBlank hBlank) hWord.1.outside
  have hSame : (name kind what).Accepts (w.toList ++ t') w t' :=
    accepts_name.mpr (hWord.before hNext)
  rw [hSame.run_eq, tokens_run_name hSame, String.ofList_toList]

/-! ### Lists -/

/-- A list may be respaced if each member may. -/
theorem respaces_untilClose (item : Item α)
    (hItem : ∀ s, closesHere s = false → item.RespacesAt s) : (untilClose item).Respaces := by
  intro s
  -- by induction on the members; with other blanks the list goes on where it went on
  induction s using untilClose_induction item with
  | step s ih =>
    cases hGoesOn : closesHere s with
    | true =>
      -- the list ends before other blanks as well
      refine (respaces_pure [] s).of_run_eq fun s' hAlike => ?_
      rw [untilClose_run_of_close (hAlike.closesHere_eq.trans hGoesOn)]
      rfl
    | false =>
      -- the first member may be respaced, and the others may by the hypothesis
      have hStep : (item.toReader >>= fun a => untilClose item >>= fun l =>
          pure (a :: l)).RespacesAt s := by
        refine (hItem s hGoesOn).bind fun a t hFirst => ?_
        obtain ⟨hOk, rfl⟩ := hFirst
        exact (ih a hGoesOn hOk).bind fun l u _ => respaces_pure (a :: l) u
      refine hStep.of_run_eq fun s' hAlike => ?_
      rw [untilClose_run, if_neg (by simp [hAlike.closesHere_eq, hGoesOn])]

end Reader

/-! ## The grammar -/

namespace Grammar

open Reader

/-! ### Offset clauses -/

/-- Digits may be followed by other blanks, as no blank is a digit. -/
theorem respaces_offsetDigits : offsetDigits.Respaces := by
  intro s o t hAccepts
  obtain ⟨digits, hRun, -, hRead⟩ := run_offsetDigits_of_accepts hAccepts
  obtain rfl := hRun.split
  have hKind : Token.Kind.number ≠ .space := by decide
  refine respacesAt_of_token (a := o) hKind (fun t' hAfter => ?_) hAccepts
  have hNext : Outside Char.isDigit t' := hAfter.outside (fun c hc => ?_) hRun.outside
  · exact hRead (hRun.before hNext)
  · cases hDigit : c.isDigit with
    | false => rfl
    | true => exact absurd hc (by simp [isBlank_of_isDigit hDigit])

/-- A clause is found again, for its keyword and colon are one with what stands there. -/
theorem respacesAt_offsetClause? (u : List Char) :
    offsetClause?.RespacesAt ("offset:".toList ++ u) := by
  have hNumber : offsetNumber.Respaces := respaces_space.bind fun _ => respaces_offsetDigits
  intro o t hAccepts log' hLog t' hAfter
  rw [Accepts, run_offsetClause?_of_keyword] at hAccepts
  rw [run_offsetClause?_of_keyword] at hLog
  -- the keyword and the colon stay, and blanks may change after them
  obtain ⟨k, rfl, hColon⟩ := hLog.eq_cons (by decide)
  obtain ⟨k, rfl, hDigits⟩ := hColon.eq_cons (by decide)
  obtain ⟨hFront, hRun⟩ := hNumber u hAccepts hDigits hAfter
  have hJoined : Token.joined (⟨.offset, "offset"⟩ :: ⟨.colon, ":"⟩ :: k) ++ t' =
      "offset:".toList ++ (Token.joined k ++ t') := rfl
  rw [hJoined, run_offsetClause?_of_keyword, hRun]
  exact ⟨hFront.append _, rfl⟩

/-- An offset may be respaced, and none is written where none was. -/
theorem respaces_offset : offset.Respaces := by
  intro s
  by_cases hKeyword : "offset:".toList <+: s
  · obtain ⟨u, rfl⟩ := hKeyword
    refine (respacesAt_offsetClause? u).bind fun o t _ => ?_
    cases o with
    | some n => exact (respaces_space.bind fun _ => respaces_pure n) t
    | none => exact respaces_pure 0 t
  · refine (respaces_pure 0 s).of_run_eq fun s' hAlike => ?_
    have hNone : ¬"offset:".toList <+: s' := fun hThere =>
      hKeyword (hAlike.symm.isPrefix isWordChar_of_mem_keyword hThere)
    rw [run_offset_of_not_keyword hNone]
    rfl

/-! ### Cases -/

theorem respaces_caseEntry {body : Reader Message} (hBody : body.Respaces) :
    (caseEntry body).Respaces :=
  (respaces_name (by decide) _).bind fun _ => respaces_space.bind fun _ =>
    (respaces_demand _ (by decide) _).bind fun _ => hBody.bind fun _ =>
    respaces_space.bind fun _ => respaces_pure _

section
variable {body : Body} (hBody : ∀ b, (body b).Respaces)
include hBody

theorem respaces_caseList (construct : String) (b requireOther : Bool) :
    (caseList body construct b requireOther).Respaces := by
  have hEntry : (caseItem (body b)).Respaces := respaces_caseEntry (hBody b)
  exact (respaces_untilClose (caseItem (body b)) fun s _ => hEntry s).bind fun _ =>
    (respaces_require _ _).bind fun _ => respaces_checked _

theorem respaces_pluralArgument (id : String) (kind : PluralKind) :
    (pluralArgument body id kind).Respaces :=
  respaces_offset.bind fun _ => (respaces_caseList hBody _ _ _).bind fun _ => respaces_checked _

theorem respaces_selectArgument (id : String) : (selectArgument body id).Respaces :=
  (respaces_caseList hBody _ _ _).bind fun _ => respaces_checked _

theorem respaces_ownCases (id type : String) : (ownCases body id type).Respaces :=
  (respaces_caseList hBody _ _ _).bind fun _ => respaces_checked _

end

/-! ### Placeholders -/

/-- A closing brace may be respaced along with the reader before it. -/
theorem respacesAt_andClose {p : Reader Element} {s : List Char} (h : p.RespacesAt s) :
    (andClose p).RespacesAt s := by
  have hClose : close.Respaces := respaces_space.bind fun _ => respaces_demand _ (by decide) _
  exact h.bind fun e t _ => (hClose.bind fun _ => respaces_pure e) t

/-- The choice between a closing brace and more may be respaced if both sides may. -/
theorem respaces_closeOr {p q : Reader Element} (hClose : p.Respaces) (hGoOn : q.Respaces) :
    (space >>= fun _ => peek >>= fun next =>
      if next == some '\x7d' then p else q).Respaces := by
  refine fun s => (respaces_space s).bind fun _ t _ => ?_
  -- the brace stands there as before, or it does not
  have hNext : (if t.head? == some '\x7d' then p else q).RespacesAt t := by
    split
    · exact hClose t
    · exact hGoOn t
  refine hNext.of_run_eq fun t' hAlike => ?_
  rw [run_peek_bind, hAlike.head?_beq (by decide)]

/-- A style that has been found in a text is read alike in front of any rest. -/
theorem respacesAt_styleOnly (id type : String) (s : List Char) :
    (styleOnly id type (StyleScan.ofSource s)).RespacesAt s := by
  intro e t hAccepts
  have hSplit := StyleScan.source_append_drop s
  -- the reader that succeeded has found a style, taken it and checked the node
  obtain ⟨hValue, hCommit⟩ := accepts_require_bind.mp hAccepts
  obtain ⟨style, u, hRead, hNode⟩ := accepts_bind.mp hCommit
  obtain ⟨rfl, -⟩ := accepts_commitStyle.mp hRead
  obtain ⟨hNode, -⟩ := accepts_checked.mp hNode
  have hKind : Token.Kind.style ≠ .space := by decide
  -- with a style that has been scanned, the reader is told what to take
  have hRun : ∀ t', (styleOnly id type (StyleScan.ofSource s)).run
      ((StyleScan.ofSource s).source ++ t') =
        ⟨.ok e, [⟨.style, String.ofList (StyleScan.ofSource s).source⟩], t'⟩ := by
    intro t'
    rw [styleOnly, hValue]
    simp only [require, if_true, commitStyle, checked, hNode, run_bind, run_pure,
      Reply.andThen, List.drop_left, List.append_nil, List.nil_append]
  have hHere := respacesAt_of_token hKind (t := s.drop (StyleScan.ofSource s).source.length)
    fun t' _ => hRun t'
  rw [hSplit] at hHere
  exact hHere hAccepts

/-- With other blanks after it, a style is found again: what stands between it and the brace
that ends it are blanks as before. -/
theorem respacesAt_style (body : Body) {id type : String} {s : List Char}
    (hStyle : ¬((StyleScan.ofSource s).stopsAtOpenBrace && !simpleTypes.contains type) = true) :
    (andClose (styleArgument body id type)).RespacesAt s := by
  intro e t hAccepts log' hLog t' hAfter
  have hThird : thirdPart body id type (StyleScan.ofSource s) =
      styleOnly id type (StyleScan.ofSource s) := if_neg hStyle
  rw [Accepts, run_andClose_styleArgument, hThird] at hAccepts
  rw [run_andClose_styleArgument, hThird] at hLog
  obtain ⟨hFront, hRun⟩ :=
    respacesAt_andClose (respacesAt_styleOnly id type s) hAccepts hLog hAfter
  refine ⟨hFront, ?_⟩
  -- the style is the first token of the log
  obtain ⟨e', u, hFirst, -⟩ := accepts_bind.mp hAccepts
  rw [andClose, tokens_run_bind hFirst, (tokens_run_styleOnly hFirst).1] at hLog
  obtain ⟨k, rfl, -⟩ := hLog.eq_cons (by simp)
  have hJoined : Token.joined
      (⟨.style, String.ofList (StyleScan.ofSource s).source⟩ :: k) ++ t' =
        (StyleScan.ofSource s).source ++ (Token.joined k ++ t') := by
    simp [Token.joined]
  rw [hJoined] at hRun ⊢
  have hBlanks := blanks_of_accepts_styleOnly ⟨congrArg Reply.result hRun,
    congrArg Reply.rest hRun⟩
  rw [List.drop_left] at hBlanks
  -- the scan finds the same style before the new blanks, and the closing brace after them
  have hFound : StyleScan.ofSource ((StyleScan.ofSource s).source ++ (Token.joined k ++ t')) =
      ⟨(StyleScan.ofSource s).glyphs, '\x7d' :: t'⟩ := by
    have hSplit := StyleScan.source_append_drop s
    cases hRest : s.drop (StyleScan.ofSource s).source.length with
    | nil =>
      obtain ⟨run, hEnd⟩ := blanks_of_accepts_styleOnly hAccepts
      rw [hRest] at hEnd
      exact absurd hEnd.split (by simp)
    | cons c v =>
      rw [hRest] at hSplit
      exact StyleScan.ofSource_source_append hSplit hBlanks (by simp [isBrace])
  -- a closing brace is no opening one, so the third part is a style again
  have hNone : ¬((StyleScan.mk (StyleScan.ofSource s).glyphs ('\x7d' :: t')).stopsAtOpenBrace &&
      !simpleTypes.contains type) = true := by
    simp [StyleScan.stopsAtOpenBrace]
  rw [run_andClose_styleArgument, hFound, thirdPart, if_neg hNone]
  exact hRun

section
variable {body : Body} (hBody : ∀ b, (body b).Respaces)
include hBody

/-- With other blanks, cases of one's own are told by their first brace as before. -/
theorem respacesAt_ownCases {id type : String} {s : List Char}
    (hStops : (StyleScan.ofSource s).stopsAtOpenBrace = true)
    (hType : (!simpleTypes.contains type) = true) :
    (andClose (styleArgument body id type)).RespacesAt s := by
  intro e t hAccepts log' hLog t' hAfter
  have hThird : thirdPart body id type (StyleScan.ofSource s) = ownCases body id type :=
    if_pos (Bool.and_eq_true_iff.mpr ⟨hStops, hType⟩)
  rw [Accepts, run_andClose_styleArgument, hThird] at hAccepts
  rw [run_andClose_styleArgument, hThird] at hLog
  obtain ⟨hFront, hRun⟩ :=
    respacesAt_andClose (respaces_ownCases hBody id type s) hAccepts hLog hAfter
  refine ⟨hFront, ?_⟩
  -- the respaced text still opens the body of its first case with the first unquoted brace
  have hGoesOn : closesHere (Token.joined log' ++ t') = false :=
    hFront.closesHere_eq.trans (closesHere_eq_false_of_stopsAtOpenBrace hStops)
  have hOpens : Opens (andClose (ownCases body id type)) (Token.joined log' ++ t') :=
    ((opens_caseList body type false false hGoesOn).bind _).bind _
  -- what stands in front of that brace is a selector and blanks
  obtain ⟨lead, u, hLead, hText⟩ :=
    hOpens.exists_lead (by rw [hRun]) fun fault hFault => absurd hFault (by simp [hRun])
  have hSame : Token.joined log' ++ t' = lead ++ '\x7b' :: (u ++ t') := by
    rw [hText, List.append_assoc, List.cons_append]
  rw [run_andClose_styleArgument, hSame, thirdPart_eq_of_opens body hLead hType, ← hSame]
  exact hRun

/-- The argument of a placeholder may be respaced, whatever its type is. -/
theorem respaces_argument (id type : String) : (andClose (argument body id type)).Respaces := by
  intro s
  unfold argument
  split
  · exact respacesAt_andClose (respaces_pluralArgument hBody id _ s)
  · split
    · exact respacesAt_andClose (respaces_selectArgument hBody id s)
    · by_cases hList :
        ((StyleScan.ofSource s).stopsAtOpenBrace && !simpleTypes.contains type) = true
      · obtain ⟨hStops, hType⟩ := Bool.and_eq_true_iff.mp hList
        exact respacesAt_ownCases hBody hStops hType
      · exact respacesAt_style body hList

/-- All that may follow a type may be respaced. -/
theorem respaces_afterType (id type : String) : (afterType body id type).Respaces := by
  refine respaces_closeOr ?_ ?_
  · exact (respaces_require _ _).bind fun _ => (respaces_take (by decide)).bind fun _ =>
      respaces_checked _
  · exact (respaces_demand _ (by decide) _).bind fun _ => respaces_space.bind fun _ =>
      respaces_argument hBody id type

/-- A placeholder may be respaced if the bodies of its cases may. -/
theorem respaces_placeholder : (placeholder body).Respaces := by
  refine respaces_space.bind fun _ => (respaces_name (by decide) _).bind fun id =>
    respaces_closeOr ?_ ?_
  · exact (respaces_take (by decide)).bind fun _ => respaces_checked _
  · exact (respaces_demand _ (by decide) _).bind fun _ => respaces_space.bind fun _ =>
      (respaces_name (by decide) _).bind fun type => respaces_afterType hBody id type

end

/-! ### Messages -/

/-- What ends a text is no blank. -/
theorem isBlank_of_isSpecial {b : Bool} {c : Char} (h : isSpecial b c = true) :
    isBlank c = false := by
  have hOne : (c = '\x7b' ∨ c = '\x7d') ∨ b = true ∧ c = '#' := by
    simpa [isSpecial, isBrace] using h
  rcases hOne with (rfl | rfl) | ⟨-, rfl⟩ <;> decide

/-- Text ends where no blank stands. -/
theorem respacesAt_item_of_text (body : Body) {b : Bool} {c : Char} (u : List Char)
    (hPlain : isSpecial b c = false) : (elementItem body b).RespacesAt (c :: u) := by
  have hSource := Stretch.source_append_rest (Dialect.text b) false (c :: u)
  obtain ⟨g, gs, hGlyphs⟩ :=
    List.exists_cons_of_ne_nil ((Dialect.text b).scan_glyphs_ne_nil (t := u) hPlain)
  -- the text begins with its first character, which does not depend on what comes after it
  obtain ⟨w, hText⟩ : ∃ w,
      Glyph.sourceOf ((Dialect.text b).scan false (c :: u)).glyphs = c :: w := by
    rw [hGlyphs] at hSource ⊢
    cases g <;> exact ⟨_, by rw [← (List.cons.inj hSource).1]; rfl⟩
  have hEnd : Outside isBlank ((Dialect.text b).scan false (c :: u)).rest := by
    intro d hd
    obtain ⟨v, hRest⟩ := List.head?_eq_some_iff.mp hd
    exact isBlank_of_isSpecial ((Dialect.text b).scan_rest_eq_cons hRest).2.2
  have hKind : Token.Kind.text ≠ .space := by decide
  -- the scan stops at the same place, since what stopped it is no blank
  have hRun : ∀ t', Alike ((Dialect.text b).scan false (c :: u)).rest t' →
      (elementItem body b).run (c :: w ++ t') =
        ⟨.ok (.text (String.ofList
            (Glyph.valueOf ((Dialect.text b).scan false (c :: u)).glyphs))),
          [⟨.text, String.ofList (c :: w)⟩], t'⟩ := by
    intro t' hAfter
    have hScan := (Dialect.text b).scan_sourceOf_append false (c :: u) (hAfter.head?_eq hEnd)
    rw [hText] at hScan
    have hItem := run_item_of_text body (s := w ++ t') hPlain hScan
    rwa [hText] at hItem
  have hHere := respacesAt_of_token hKind hRun
  rwa [← hText, hSource] at hHere

section
variable {body : Body} (hBody : ∀ b, (body b).Respaces)
include hBody

/-- An element may be respaced if the bodies below it may. -/
theorem respacesAt_item (b : Bool) {s : List Char} (hGoesOn : closesHere s = false) :
    (elementItem body b).RespacesAt s := by
  -- a brace, or a pound sign, is no blank
  have hPeek : ∀ {c : Char} {t s' : List Char}, isBlank c = false → Alike (c :: t) s' →
      ∃ t', s' = c :: t' := fun hSolid hAlike =>
    List.head?_eq_some_iff.mp (hAlike.head?_eq (outside_cons hSolid _))
  -- a placeholder, a pound sign, or a text
  rcases element_cases (b := b) hGoesOn with ⟨t, rfl⟩ | ⟨t, rfl, rfl⟩ | ⟨c, t, rfl, hPlain⟩
  · have hOpen : (take .openBrace >>= fun _ => placeholder body).Respaces :=
      (respaces_take (by decide)).bind fun _ => respaces_placeholder hBody
    refine (hOpen _).of_run_eq fun s' hAlike => ?_
    obtain ⟨t', rfl⟩ := hPeek (by decide) hAlike
    exact run_peek_bind _
  · have hPound : (take .pound >>= fun _ => pure Element.pound).Respaces :=
      (respaces_take (by decide)).bind fun _ => respaces_pure _
    refine (hPound _).of_run_eq fun s' hAlike => ?_
    obtain ⟨t', rfl⟩ := hPeek (by decide) hAlike
    exact run_peek_bind _
  · exact respacesAt_item_of_text body t hPlain

/-- The elements of a message may be respaced if the bodies below them may. -/
theorem respaces_elements (cx : Context) : (elements body cx).Respaces := by
  refine fun s => (respaces_untilClose _ (fun s => respacesAt_item hBody _) s).bind
    fun m t _ => ?_
  have hEnd : (require (!cx.isTopLevel || t.head? != some '\x7d') .unexpected >>= fun _ =>
      (pure m : Reader Message)).Respaces :=
    (respaces_require _ _).bind fun _ => respaces_pure m
  refine (hEnd t).of_run_eq fun t' hAlike => ?_
  rw [run_peek_bind, bne, hAlike.head?_beq (by decide)]
  rfl

end

/-- A message is read with other blanks. -/
theorem respaces_message (cx : Context) : (message cx).Respaces :=
  message_of_parts (fun _ s m t hAccepts => absurd hAccepts not_accepts_reject)
    (fun _ hBody => hBody.bind fun m => (respaces_demand _ (by decide) _).bind fun _ =>
      respaces_pure m)
    (fun _ cx hBody => respaces_elements hBody cx) cx

end Grammar

/-! ## Whole parses -/

namespace Parser

/-- A parse that gives a message is an accepted run to the end of the text. -/
theorem accepts_of_parseInto {p : Parser} {pattern : PatternValue} {m : Message}
    {log : List Token} (h : p.parseInto pattern [] = (.ok m, log)) :
    (Grammar.message p.rootContext).Accepts pattern.toText.toList m [] ∧
      ((Grammar.message p.rootContext).run pattern.toText.toList).tokens = log := by
  by_cases hLong : 0 < p.maxLength ∧ p.maxLength < pattern.toText.length
  · rw [parseInto_of_long hLong] at h
    exact absurd (congrArg Prod.fst h) (by simp)
  · rw [parseInto_of_short hLong, List.nil_append] at h
    have hOk : (p.reply pattern.toText).result = .ok m :=
      eq_ok_of_mapError (congrArg Prod.fst h)
    exact ⟨⟨hOk, reply_rest_of_ok hOk⟩, congrArg Prod.snd h⟩

/-- **Blanks do not matter.** The message of a pattern can be seen from its log without
blanks: another pattern that parses, and whose log is the same apart from blanks, has the
same message, also within other limits. And whatever blanks are put for those in the log,
the pattern that the new log makes up has the same message and the new log, unless it is too
long to be read at all. -/
theorem parseInto_respaced (p : Parser) (pattern : PatternValue) (m : Message)
    (log : List Token) (h : p.parseInto pattern [] = (.ok m, log)) :
    (∀ (q : Parser) (other : PatternValue) (m' : Message) (log' : List Token),
      q.parseInto other [] = (.ok m', log') →
        Token.unspaced log' = Token.unspaced log → m' = m) ∧
    ∀ log', Token.AllRespaced log log' →
      p.parseInto (.text (String.ofList (Token.joined log'))) [] =
        if 0 < p.maxLength ∧ p.maxLength < (Token.joined log').length then
          (.error (.tooLong (Token.joined log').length p.maxLength.toNat), [])
        else (.ok m, log') := by
  obtain ⟨hAccepts, hTokens⟩ := accepts_of_parseInto h
  refine ⟨?_, ?_⟩
  · intro q other m' log' hOther hSame
    obtain ⟨hAccepts', hTokens'⟩ := accepts_of_parseInto hOther
    -- the end of the text follows both messages
    have hNone : Token.Heads (· = .closeBrace) [] := fun _ hToken => absurd hToken (by simp)
    have hAgree := Grammar.agree_message q.rootContext p.rootContext rfl
    exact (hAgree _ _ hAccepts' hAccepts hNone hNone (by rw [hTokens, hTokens', hSame])).1
  · intro log' hLog
    obtain ⟨-, hRun⟩ := Grammar.respaces_message p.rootContext _ hAccepts
      (hTokens ▸ hLog) (.refl [])
    rw [List.append_nil] at hRun
    -- the respaced text is read unless it has become too long
    have hText : (PatternValue.text (String.ofList (Token.joined log'))).toText.length =
        (Token.joined log').length := String.length_ofList
    split
    · next hLong =>
      rw [← hText] at hLong ⊢
      exact parseInto_of_long hLong []
    · next hShort =>
      rw [← hText] at hShort
      have hReply : p.reply (PatternValue.text (String.ofList (Token.joined log'))).toText =
          ⟨.ok m, log', []⟩ := by
        show (Grammar.message p.rootContext).run (String.ofList _).toList = _
        rw [String.toList_ofList, hRun]
      rw [parseInto_of_short hShort, hReply]
      rfl

/-- The log of a placeholder with these blanks after its style. -/
def logWithBlanks (blanks : String) : List Token :=
  [⟨.openBrace, "\x7b"⟩, ⟨.id, "d"⟩, ⟨.comma, ","⟩, ⟨.type, "date"⟩, ⟨.comma, ","⟩,
    ⟨.style, "d m"⟩, ⟨.space, blanks⟩, ⟨.closeBrace, "\x7d"⟩]

/-- The blanks after a style are replaced by others, and the blank within it stays. Other
blanks, in front of the name and of the style, are of no account either. -/
theorem parseInto_respaced_of_style :
    (Parser.mk 20 0).parseInto (.text "\x7bd,date,d m \x7d") [] =
        (.ok [.typed "d" "date" (some "d m")], logWithBlanks " ") ∧
      Token.AllRespaced (logWithBlanks " ") (logWithBlanks "\t\u200b") ∧
      (Parser.mk 20 0).parseInto
          (.text (String.ofList (Token.joined (logWithBlanks "\t\u200b")))) [] =
        (.ok [.typed "d" "date" (some "d m")], logWithBlanks "\t\u200b") ∧
      ∃ m' log', (Parser.mk 0 9).parseInto (.text "\x7b d,date,\nd m\x7d") [] = (.ok m', log') ∧
        Token.unspaced log' = Token.unspaced (logWithBlanks " ") ∧
        m' = [.typed "d" "date" (some "d m")] := by
  refine ⟨?first, ?spaced, ?_, [.typed "d" "date" (some "d m")],
    ((Parser.mk 0 9).parseInto (.text "\x7b d,date,\nd m\x7d") []).2, ?other, ?same, ?_⟩
  · decide +kernel
  · decide +kernel
  · exact ((parseInto_respaced ⟨20, 0⟩ _ _ _ ?first).2 _ ?spaced).trans
      (if_neg (by decide +kernel))
  · decide +kernel
  · decide +kernel
  · exact (parseInto_respaced ⟨20, 0⟩ _ _ _ ?first).1 ⟨0, 9⟩ _ _ _ ?other ?same

/-- Within the usual limits, as many blanks as a pattern may have characters cannot stand
where one stood, for the pattern gets too long. -/
theorem parseInto_not_respaced :
    ({} : Parser).parseInto (.text "\x7bd,date,d m \x7d") [] =
        (.ok [.typed "d" "date" (some "d m")], logWithBlanks " ") ∧
      Token.AllRespaced (logWithBlanks " ")
        (logWithBlanks (String.ofList (List.replicate 10485760 ' '))) ∧
      ({} : Parser).parseInto (.text (String.ofList (Token.joined
          (logWithBlanks (String.ofList (List.replicate 10485760 ' ')))))) [] =
        (.error (.tooLong 10485772 10485760), []) := by
  refine ⟨by decide +kernel, ?_, ?_⟩
  · -- only the blanks are different
    have hBlanks : Token.Respaced ⟨.space, " "⟩
        ⟨.space, String.ofList (List.replicate 10485760 ' ')⟩ := by
      refine ⟨rfl, ?_⟩
      rw [if_pos rfl]
      refine ⟨?_, ?_⟩
      · intro hNone
        have hLength := congrArg String.length hNone
        rw [String.length_ofList, List.length_replicate] at hLength
        exact absurd hLength (by decide)
      · refine List.all_eq_true.mpr fun c hc => ?_
        rw [String.toList_ofList] at hc
        rw [List.eq_of_mem_replicate hc]
        decide
    exact .cons (by decide) (.cons (by decide) (.cons (by decide) (.cons (by decide)
      (.cons (by decide) (.cons (by decide) (.cons hBlanks (.cons (by decide) .nil)))))))
  · -- with so many blanks the pattern is beyond the limit of the parser
    have hLength : ∀ n, (Token.joined (logWithBlanks
        (String.ofList (List.replicate n ' ')))).length = n + 12 := by
      intro n
      simp [logWithBlanks, Token.joined]
    have hText : (PatternValue.text (String.ofList (Token.joined
        (logWithBlanks (String.ofList (List.replicate 10485760 ' ')))))).toText.length =
        10485772 := by
      show (String.ofList _).length = _
      rw [String.length_ofList, hLength]
    rw [parseInto_of_long (by rw [hText]; decide), hText]
    rfl

end Parser

end MessagePattern
