import MessagePattern.Proofs.Cut

/-!
# Logs without blanks

Two runs are compared by their logs with the blanks left out. Where a reader has a choice,
the first token that is no blank tells what was chosen. Some readers may log nothing, or may
go on, so two runs are compared together with the tokens that follow them, whose first one
tells where they ended.

* `Token.unspaced` — a log without its blanks;
* `Reader.AgreeAt`, `Reader.Agree` — accepted runs whose logs agree have equal values;
* `Reader.BeginsAt` — the first token that tells a choice;
* `Reader.AgreeAt.bind`, `Reader.agreeAt_untilClose` — readers built from readers.
-/

namespace MessagePattern

/-- The tokens of a log that are not blanks. -/
def Token.unspaced (log : List Token) : List Token :=
  log.filter fun token => token.kind != .space

@[simp] theorem Token.unspaced_nil : Token.unspaced [] = [] := rfl

@[simp] theorem Token.unspaced_append (log more : List Token) :
    Token.unspaced (log ++ more) = Token.unspaced log ++ Token.unspaced more :=
  List.filter_append ..

/-- A token that is no blank stays. -/
theorem Token.unspaced_cons {token : Token} (h : token.kind ≠ .space) (log : List Token) :
    Token.unspaced (token :: log) = token :: Token.unspaced log := by
  rw [unspaced, List.filter_cons_of_pos (by simpa using h)]
  rfl

/-- The first token of a log, if there is one, is of some kinds. -/
def Token.Heads (F : Token.Kind → Prop) (log : List Token) : Prop :=
  ∀ token ∈ log.head?, F token.kind

/-- Any token may come first. -/
abbrev Token.anyKind : Token.Kind → Prop := fun _ => True

namespace Reader

variable {α β : Type}

/-- Two runs agree: if both give values, and the logs are equal apart from blanks, each with
some tokens after it, then the values are equal, and so are the tokens after the logs. The
kinds are those that the first of these tokens may have. -/
def AgreeAt (p q : Reader α) (F : Token.Kind → Prop) (s s' : List Char) : Prop :=
  ∀ ⦃a a' t t' more more'⦄, p.Accepts s a t → q.Accepts s' a' t' →
    Token.Heads F more → Token.Heads F more' →
    Token.unspaced (p.run s).tokens ++ more = Token.unspaced (q.run s').tokens ++ more' →
    a = a' ∧ more = more'

/-- All runs of two readers agree. -/
def Agree (p q : Reader α) (F : Token.Kind → Prop) : Prop := ∀ s s', p.AgreeAt q F s s'

/-- An accepted run logs something that is no blank, and the first such token is of some
kinds. -/
def BeginsAt (p : Reader α) (F : Token.Kind → Prop) (s : List Char) : Prop :=
  ∀ ⦃a t⦄, p.Accepts s a t →
    ∃ token more, Token.unspaced (p.run s).tokens = token :: more ∧ F token.kind

/-! ## Readers built from readers -/

/-- The log of a sequence is that of the first reader and then that of the second. -/
theorem tokens_run_bind {p : Reader α} {next : α → Reader β} {s t : List Char} {a : α}
    (h : p.Accepts s a t) :
    ((p >>= next).run s).tokens = (p.run s).tokens ++ ((next a).run t).tokens := by
  rw [run_bind_of_ok h.1, h.2]

/-- The same with the blanks dropped. -/
theorem unspaced_run_bind {p : Reader α} {next : α → Reader β} {s t : List Char} {a : α}
    (h : p.Accepts s a t) :
    Token.unspaced ((p >>= next).run s).tokens =
      Token.unspaced (p.run s).tokens ++ Token.unspaced ((next a).run t).tokens := by
  rw [tokens_run_bind h, Token.unspaced_append]

/-- One reader after another agrees with such another pair, if what the second readers log
may follow the first ones. -/
theorem AgreeAt.bind {p q : Reader α} {next next' : α → Reader β} {F G : Token.Kind → Prop}
    {s s' : List Char} (hFirst : p.AgreeAt q F s s')
    (hLead : ∀ {a b t u more}, (next a).Accepts t b u → Token.Heads G more →
      Token.Heads F (Token.unspaced ((next a).run t).tokens ++ more))
    (hLead' : ∀ {a b t u more}, (next' a).Accepts t b u → Token.Heads G more →
      Token.Heads F (Token.unspaced ((next' a).run t).tokens ++ more))
    (hNext : ∀ a t t', p.Accepts s a t → q.Accepts s' a t' →
      (next a).AgreeAt (next' a) G t t') :
    (p >>= next).AgreeAt (q >>= next') G s s' := by
  intro b b' u u' more more' hRun hRun' hMore hMore' hLogs
  -- both runs are taken apart, and their logs are
  obtain ⟨a, t, hHere, hThere⟩ := accepts_bind.mp hRun
  obtain ⟨a', t', hHere', hThere'⟩ := accepts_bind.mp hRun'
  rw [unspaced_run_bind hHere, unspaced_run_bind hHere', List.append_assoc,
    List.append_assoc] at hLogs
  -- the logs agree up to where the first readers stop, so the values are the same
  obtain ⟨rfl, hRest⟩ :=
    hFirst hHere hHere' (hLead hThere hMore) (hLead' hThere' hMore') hLogs
  exact hNext a t t' hHere hHere' hThere hThere' hMore hMore' hRest

/-- Where anything may follow the first readers, the second ones need not be looked at. -/
theorem Agree.bind {p q : Reader α} {next next' : α → Reader β} {F : Token.Kind → Prop}
    (hFirst : p.Agree q Token.anyKind) (hNext : ∀ a, (next a).Agree (next' a) F) :
    (p >>= next).Agree (q >>= next') F := fun s s' =>
  (hFirst s s').bind (fun _ _ _ _ => trivial) (fun _ _ _ _ => trivial)
    fun a t t' _ _ =>
    hNext a t t'

/-- Agreement is about runs, so readers that run alike agree alike. -/
theorem AgreeAt.of_run_eq {p p' q q' : Reader α} {F : Token.Kind → Prop} {s s' : List Char}
    (h : p'.AgreeAt q' F s s') (hRun : p.run s = p'.run s) (hRun' : q.run s' = q'.run s') :
    p.AgreeAt q F s s' := by
  intro a a' t t' more more' hHere hHere'
  rw [Accepts, hRun] at hHere
  rw [Accepts, hRun'] at hHere'
  rw [hRun, hRun']
  exact h hHere hHere'

/-- A stronger condition on what follows may be asked for. -/
theorem AgreeAt.mono {p q : Reader α} {F G : Token.Kind → Prop} {s s' : List Char}
    (h : p.AgreeAt q F s s') (hLess : ∀ kind, G kind → F kind) : p.AgreeAt q G s s' := by
  intro a a' t t' more more' hRun hRun' hMore hMore'
  exact h hRun hRun' (fun token hToken => hLess _ (hMore token hToken))
    fun token hToken => hLess _ (hMore' token hToken)

/-- Two runs that begin with tokens of different kinds cannot have the same log. -/
theorem agreeAt_of_begins {p q : Reader α} {F G H : Token.Kind → Prop} {s s' : List Char}
    (hBegins : p.BeginsAt G s) (hBegins' : q.BeginsAt H s')
    (hApart : ∀ kind, G kind → ¬H kind) : p.AgreeAt q F s s' := by
  intro a a' t t' more more' hRun hRun' _ _ hLogs
  obtain ⟨token, log, hLog, hKind⟩ := hBegins hRun
  obtain ⟨token', log', hLog', hKind'⟩ := hBegins' hRun'
  rw [hLog, hLog'] at hLogs
  obtain ⟨rfl, -⟩ := List.cons.inj hLogs
  exact absurd hKind' (hApart _ hKind)

/-- Agreement does not hang on which reader is named first. -/
theorem AgreeAt.symm {p q : Reader α} {F : Token.Kind → Prop} {s s' : List Char}
    (h : p.AgreeAt q F s s') : q.AgreeAt p F s' s := by
  intro a a' t t' more more' hRun hRun' hMore hMore' hLogs
  obtain ⟨rfl, rfl⟩ := h hRun' hRun hMore' hMore hLogs.symm
  exact ⟨rfl, rfl⟩

/-- What a reader logs tells the first token of its log and of any log that goes on. -/
theorem BeginsAt.heads {p : Reader α} {F : Token.Kind → Prop} {s t : List Char} {a : α}
    (h : p.BeginsAt F s) (hRun : p.Accepts s a t) (more : List Token) :
    Token.Heads F (Token.unspaced (p.run s).tokens ++ more) := by
  obtain ⟨token, log, hLog, hKind⟩ := h hRun
  intro found hFound
  rw [hLog] at hFound
  obtain rfl : token = found := by simpa using hFound
  exact hKind

/-- The kinds that a log may begin with may be taken wider. -/
theorem BeginsAt.mono {p : Reader α} {F G : Token.Kind → Prop} {s : List Char}
    (h : p.BeginsAt F s) (hMore : ∀ kind, F kind → G kind) : p.BeginsAt G s := by
  intro a t hRun
  obtain ⟨token, log, hLog, hKind⟩ := h hRun
  exact ⟨token, log, hLog, hMore _ hKind⟩

/-- The first reader tells, if it logs something that is no blank. -/
theorem BeginsAt.bind_left {p : Reader α} {F : Token.Kind → Prop} {s : List Char}
    (h : p.BeginsAt F s) (next : α → Reader β) : (p >>= next).BeginsAt F s := by
  intro b u hRun
  obtain ⟨a, t, hHere, hThere⟩ := accepts_bind.mp hRun
  obtain ⟨token, log, hLog, hKind⟩ := h hHere
  rw [unspaced_run_bind hHere, hLog]
  exact ⟨token, _, rfl, hKind⟩

/-- The second reader tells, if the first one logs nothing but blanks. -/
theorem BeginsAt.bind_right {p : Reader α} {next : α → Reader β} {F : Token.Kind → Prop}
    {s : List Char} (hBlank : Token.unspaced (p.run s).tokens = [])
    (h : ∀ a t, p.Accepts s a t → (next a).BeginsAt F t) : (p >>= next).BeginsAt F s := by
  intro b u hRun
  obtain ⟨a, t, hHere, hThere⟩ := accepts_bind.mp hRun
  rw [unspaced_run_bind hHere, hBlank]
  exact h a t hHere hThere

/-! ### Readers that log nothing -/

/-- The reader looks, checks or builds, and takes nothing. -/
def Silent (p : Reader α) : Prop := ∀ s, (p.run s).tokens = []

/-- Readers that log nothing log nothing in sequence. -/
theorem Silent.bind {p : Reader α} {next : α → Reader β} (hFirst : p.Silent)
    (hNext : ∀ a, (next a).Silent) : (p >>= next).Silent := by
  intro s
  cases hResult : (p.run s).result with
  | ok a =>
    rw [run_bind_of_ok hResult, hFirst, hNext]
    rfl
  | error fault => rw [run_bind_of_error hResult, hFirst]

theorem silent_pure (a : α) : (pure a : Reader α).Silent := fun _ => rfl

theorem silent_peek : peek.Silent := fun _ => rfl

theorem silent_checked (node : Except NodeError α) : (checked node).Silent := by
  intro s
  cases node <;> rfl

theorem silent_require (condition : Bool) (cause : Violation) :
    (require condition cause).Silent := by
  intro s
  cases condition <;> rfl

/-- Readers that log nothing agree if their values do. -/
theorem agree_of_silent {p q : Reader α} (hSilent : p.Silent) (hSilent' : q.Silent)
    (hValue : ∀ s s' a a' t t', p.Accepts s a t → q.Accepts s' a' t' → a = a') :
    p.Agree q Token.anyKind := by
  intro s s' a a' t t' more more' hRun hRun' _ _ hLogs
  rw [hSilent, hSilent'] at hLogs
  exact ⟨hValue s s' a a' t t' hRun hRun', hLogs⟩

/-- What logs nothing leaves it to the tokens that follow what the first readers say. -/
theorem AgreeAt.bind_silent {p q : Reader α} {next next' : α → Reader β}
    {F : Token.Kind → Prop} {s s' : List Char} (hFirst : p.AgreeAt q F s s')
    (hSilent : ∀ a, (next a).Silent) (hSilent' : ∀ a, (next' a).Silent)
    (hNext : ∀ a, (next a).Agree (next' a) Token.anyKind) :
    (p >>= next).AgreeAt (q >>= next') F s s' := by
  refine hFirst.bind ?_ ?_ fun a t t' _ _ => (hNext a t t').mono fun _ _ => trivial
  · intro a b t u more _ hMore
    rwa [hSilent]
  · intro a b t u more _ hMore
    rwa [hSilent']

theorem agree_pure (a : α) : (pure a : Reader α).Agree (pure a) Token.anyKind := by
  refine agree_of_silent (silent_pure a) (silent_pure a) ?_
  intro s s' b b' t t' hRun hRun'
  exact (accepts_pure.mp hRun).1.symm.trans (accepts_pure.mp hRun').1

theorem agree_checked (node : Except NodeError α) :
    (checked node).Agree (checked node) Token.anyKind := by
  refine agree_of_silent (silent_checked node) (silent_checked node) ?_
  intro s s' b b' t t' hRun hRun'
  exact Except.ok.inj ((accepts_checked.mp hRun).1.symm.trans (accepts_checked.mp hRun').1)

theorem agree_require (condition : Bool) (cause : Violation) :
    (require condition cause).Agree (require condition cause) Token.anyKind :=
  agree_of_silent (silent_require _ _) (silent_require _ _) fun _ _ _ _ _ _ _ _ => rfl

/-! ### Readers that log at most one token -/

/-- Skipping blanks logs them as one token, if there are any. -/
theorem run_space {s run t : List Char} (hRun : Declared.Run isBlank s run t) :
    space.run s =
      ⟨.ok (), if run = [] then [] else [⟨.space, String.ofList run⟩], t⟩ := by
  obtain ⟨rfl, rfl⟩ := Declared.run_iff.mp hRun
  obtain ⟨hTake, hDrop⟩ := take_widthWhile isBlank s
  simp only [space, lexeme, run_bind, run_pure, Reply.andThen, hTake, hDrop, List.append_nil]
  simp

/-- Nothing is left of skipped blanks when blanks are dropped. -/
theorem unspaced_run_space (s : List Char) : Token.unspaced (space.run s).tokens = [] := by
  rw [run_space (Declared.run_takeWhile isBlank s)]
  dsimp only
  split <;> rfl

/-- Blanks may differ. -/
theorem agree_space : space.Agree space Token.anyKind := by
  intro s s' b b' t t' more more' _ _ _ _ hLogs
  rw [unspaced_run_space, unspaced_run_space] at hLogs
  exact ⟨rfl, hLogs⟩

/-- A token that is taken is the first of the log. -/
theorem beginsAt_take {kind : Token.Kind} (hKind : kind ≠ .space) (s : List Char) :
    (take kind).BeginsAt (· = kind) s := by
  intro a t hRun
  obtain ⟨c, rfl⟩ := accepts_take.mp hRun
  rw [run_take_cons, Token.unspaced_cons hKind]
  exact ⟨_, _, rfl, rfl⟩

/-- A demanded token that is there is the first of the log. -/
theorem beginsAt_demand {c : Char} {kind : Token.Kind} (hKind : kind ≠ .space)
    (what : Expectation) (s : List Char) : (demand c kind what).BeginsAt (· = kind) s := by
  intro a t hRun
  obtain rfl := accepts_demand.mp hRun
  rw [run_demand_cons, Token.unspaced_cons hKind]
  exact ⟨_, _, rfl, rfl⟩

/-- A token that is taken is the same on both sides where the logs are. -/
theorem agree_take {kind : Token.Kind} (hKind : kind ≠ .space) :
    (take kind).Agree (take kind) Token.anyKind := by
  intro s s' b b' t t' more more' hRun hRun' _ _ hLogs
  obtain ⟨c, rfl⟩ := accepts_take.mp hRun
  obtain ⟨c', rfl⟩ := accepts_take.mp hRun'
  rw [run_take_cons, run_take_cons, Token.unspaced_cons hKind,
    Token.unspaced_cons hKind] at hLogs
  exact ⟨rfl, (List.cons.inj hLogs).2⟩

/-- A demanded token gives no value, so only the logs are compared. -/
theorem agree_demand (c : Char) {kind : Token.Kind} (hKind : kind ≠ .space)
    (what : Expectation) : (demand c kind what).Agree (demand c kind what) Token.anyKind := by
  intro s s' b b' t t' more more' hRun hRun' _ _ hLogs
  obtain rfl := accepts_demand.mp hRun
  obtain rfl := accepts_demand.mp hRun'
  rw [run_demand_cons, run_demand_cons, Token.unspaced_cons hKind] at hLogs
  exact ⟨rfl, (List.cons.inj hLogs).2⟩

/-- A word is that of its token. -/
theorem agree_name {kind : Token.Kind} (hKind : kind ≠ .space) (what : Expectation) :
    (name kind what).Agree (name kind what) Token.anyKind := by
  intro s s' w w' t t' more more' hRun hRun' _ _ hLogs
  rw [tokens_run_name hRun, tokens_run_name hRun', Token.unspaced_cons hKind,
    Token.unspaced_cons hKind] at hLogs
  obtain ⟨hWord, hMore⟩ := List.cons.inj hLogs
  exact ⟨(Token.mk.inj hWord).2, hMore⟩

theorem beginsAt_name {kind : Token.Kind} (hKind : kind ≠ .space) (what : Expectation)
    (s : List Char) : (name kind what).BeginsAt (· = kind) s := by
  intro w t hRun
  rw [tokens_run_name hRun, Token.unspaced_cons hKind]
  exact ⟨_, _, rfl, rfl⟩

/-! ### Lists -/

/-- A list that is not empty begins as its first member does. -/
theorem beginsAt_untilClose {item : Item α} {F : Token.Kind → Prop} {s : List Char}
    (hGoesOn : closesHere s = false) (hItem : item.BeginsAt F s) :
    (untilClose item).BeginsAt F s := by
  have hBegins := hItem.bind_left fun a => untilClose item >>= fun l => pure (a :: l)
  intro l t hRun
  have hStep : (untilClose item).run s =
      (item.toReader >>= fun a => untilClose item >>= fun l => pure (a :: l)).run s := by
    rw [untilClose_run, if_neg (by simp [hGoesOn])]
  rw [Accepts, hStep] at hRun
  rw [hStep]
  exact hBegins hRun

/-- A log that begins with one kind of token does not begin with another. -/
theorem BeginsAt.not_heads {p : Reader α} {F G : Token.Kind → Prop} {s t : List Char} {a : α}
    {more : List Token} (h : p.BeginsAt F s) (hRun : p.Accepts s a t)
    (hApart : ∀ kind, F kind → ¬G kind) :
    ¬Token.Heads G (Token.unspaced (p.run s).tokens ++ more) := by
  obtain ⟨token, log, hLog, hKind⟩ := h hRun
  intro hHeads
  rw [hLog] at hHeads
  exact hApart _ hKind (hHeads token rfl)

/-- Lists agree that are followed by a closing brace or by nothing, if their members agree
and do not begin with a closing brace. -/
theorem agreeAt_untilClose (item item' : Item α)
    (hItem : ∀ s s', closesHere s = false → closesHere s' = false →
      item.AgreeAt item'.toReader Token.anyKind s s')
    (hBegins : ∀ s, closesHere s = false → item.BeginsAt (· ≠ .closeBrace) s)
    (hBegins' : ∀ s, closesHere s = false → item'.BeginsAt (· ≠ .closeBrace) s)
    (s s' : List Char) :
    (untilClose item).AgreeAt (untilClose item') (· = .closeBrace) s s' := by
  -- by induction on the members of the first list
  induction s using untilClose_induction item generalizing s' with
  | step s ih =>
    intro l l' t t' more more' hRun hRun' hMore hMore' hLogs
    rcases accepts_untilClose.mp hRun with ⟨hEnds, rfl, rfl⟩ |
      ⟨hGoesOn, a, u, k, hFirst, hRest, rfl⟩ <;>
    rcases accepts_untilClose.mp hRun' with ⟨hEnds', rfl, rfl⟩ |
      ⟨hGoesOn', a', u', k', hFirst', hRest', rfl⟩
    · -- both lists end here
      rw [untilClose_run_of_close hEnds, untilClose_run_of_close hEnds'] at hLogs
      exact ⟨rfl, hLogs⟩
    · -- the second list goes on where the first one ends
      rw [untilClose_run_of_close hEnds, Token.unspaced_nil, List.nil_append] at hLogs
      rw [hLogs] at hMore
      have hOther := beginsAt_untilClose hGoesOn' (hBegins' _ hGoesOn')
      exact absurd hMore (hOther.not_heads hRun' fun _ hNot hClose => hNot hClose)
    · -- the first list goes on where the second one ends
      rw [untilClose_run_of_close hEnds', Token.unspaced_nil, List.nil_append] at hLogs
      rw [← hLogs] at hMore'
      have hOther := beginsAt_untilClose hGoesOn (hBegins _ hGoesOn)
      exact absurd hMore' (hOther.not_heads hRun fun _ hNot hClose => hNot hClose)
    · rw [untilClose_run_of_ok hGoesOn hFirst.run_eq,
        untilClose_run_of_ok hGoesOn' hFirst'.run_eq, Token.unspaced_append,
        Token.unspaced_append, List.append_assoc, List.append_assoc] at hLogs
      -- both lists have a first member, and the logs tell that it is the same
      obtain ⟨rfl, hLogs⟩ :=
        hItem s s' hGoesOn hGoesOn' hFirst hFirst' (fun _ _ => trivial) (fun _ _ => trivial)
          hLogs
      obtain ⟨hOk, rfl⟩ := hFirst
      obtain ⟨rfl, hSame⟩ := ih a hGoesOn hOk u' hRest hRest' hMore hMore' hLogs
      exact ⟨rfl, hSame⟩

end Reader

end MessagePattern
