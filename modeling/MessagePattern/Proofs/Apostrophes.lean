import Mathlib.Data.List.TakeWhile
import MessagePattern.Proofs.Derivation

/-!
# Scans and the rule for apostrophes

A scan of a dialect gives, glyph by glyph, the pieces that the declared rule for
apostrophes allows. The rule leaves no choice, so a scan is the only passage up to
the next unquoted stop character.

* `Dialect.scan_induction`, `Dialect.scan_cases` — the rules by which a scan reads a glyph;
* `Declared.quoted_scan`, `Declared.piece_scan` — the glyphs of a quoted run and of
  a piece;
* `Declared.passage_iff` — a scan is the one passage from its text;
* `Declared.style_iff` — a style is what a scan gives, less the unquoted blanks at
  the end.
-/

namespace MessagePattern

/-! ## One step of a scan -/

namespace Dialect

variable (d : Dialect)

/-- Two apostrophes are one glyph, in a quoted run and outside. -/
theorem scan_pair (quoted : Bool) (t : List Char) :
    d.scan quoted ('\'' :: '\'' :: t) = (d.scan quoted t).cons .doubled :=
  scan.eq_2 d quoted t

/-- In a quoted run, an apostrophe without a partner closes it. -/
theorem scan_close {t : List Char} (h : t.head? ≠ some '\'') :
    d.scan true ('\'' :: t) = (d.scan false t).cons .quote :=
  scan.eq_3 d t fun u hPair => h (by rw [hPair]; rfl)

/-- In a quoted run, any other character is quoted. -/
theorem scan_quoted_char {c : Char} (h : c ≠ '\'') (t : List Char) :
    d.scan true (c :: t) = (d.scan true t).cons (.quoted c) :=
  scan.eq_4 d c t (fun _ hQuote _ => h hQuote) h

/-- Outside, an apostrophe in front of a character that can be quoted opens a run. -/
theorem scan_open {c : Char} (h : c ≠ '\'') (hOpens : d.opens c = true) (t : List Char) :
    d.scan false ('\'' :: c :: t) = (d.scan true (c :: t)).cons .quote := by
  rw [scan.eq_6 d c t h, if_pos hOpens]

/-- Outside, an apostrophe in front of anything else, or at the end, stands for itself. -/
theorem scan_lone {t : List Char} (h : ∀ c ∈ t.head?, c ≠ '\'' ∧ d.opens c = false) :
    d.scan false ('\'' :: t) = (d.scan false t).cons (.bare '\'') := by
  cases t with
  | nil => exact scan.eq_5 d
  | cons c t =>
    obtain ⟨hNoPair, hNotOpens⟩ := h c rfl
    rw [scan.eq_6 d c t hNoPair, if_neg (by simp [hNotOpens])]

/-- Outside, any other character stands for itself, unless it stops the scan. -/
theorem scan_unquoted {c : Char} (h : c ≠ '\'') (t : List Char) :
    d.scan false (c :: t) =
      if d.stops c then ⟨[], c :: t⟩ else (d.scan false t).cons (.bare c) :=
  scan.eq_7 d c t (fun _ hQuote _ => h hQuote) (fun hQuote _ => h hQuote)
    fun _ _ hQuote _ => h hQuote

theorem scan_plain {c : Char} (h : c ≠ '\'') (hGoesOn : d.stops c = false)
    (t : List Char) : d.scan false (c :: t) = (d.scan false t).cons (.bare c) := by
  rw [d.scan_unquoted h, if_neg (by simp [hGoesOn])]

/-- A scan that begins where it has to stop finds nothing. -/
theorem scan_stop (hQuote : d.stops '\'' = false) {s : List Char}
    (h : ∀ c ∈ s.head?, d.stops c = true) : d.scan false s = ⟨[], s⟩ := by
  cases s with
  | nil => exact scan.eq_1 d false
  | cons c t =>
    have hStops : d.stops c = true := h c rfl
    have hNoQuote : c ≠ '\'' := by
      rintro rfl
      simp [hQuote] at hStops
    rw [d.scan_unquoted hNoQuote, if_pos hStops]

/-- What passes from the text after each glyph of a scan to the text before it, in step
with the rule for apostrophes, holds of every text. -/
theorem scan_induction {motive : Bool → List Char → Prop}
    (nil : ∀ inRun, motive inRun [])
    (pair : ∀ inRun t, motive inRun t → motive inRun ('\'' :: '\'' :: t))
    (close : ∀ t, t.head? ≠ some '\'' → motive false t → motive true ('\'' :: t))
    (inside : ∀ c t, c ≠ '\'' → motive true t → motive true (c :: t))
    (opening : ∀ c t, c ≠ '\'' → d.opens c = true → motive true (c :: t) →
      motive false ('\'' :: c :: t))
    (lone : ∀ t, (∀ c ∈ t.head?, c ≠ '\'' ∧ d.opens c = false) → motive false t →
      motive false ('\'' :: t))
    (stop : ∀ c t, c ≠ '\'' → d.stops c = true → motive false (c :: t))
    (plain : ∀ c t, c ≠ '\'' → d.stops c = false → motive false t → motive false (c :: t))
    (inRun : Bool) (s : List Char) : motive inRun s := by
  induction inRun, s using scan.induct d with
  | case1 inRun => exact nil inRun
  | case2 inRun t ih => exact pair inRun t ih
  | case3 t hNoPair ih =>
    -- no second apostrophe follows, or the two would be a pair
    refine close t (fun hHead => ?_) ih
    obtain ⟨u, rfl⟩ := List.head?_eq_some_iff.mp hHead
    exact hNoPair u rfl
  | case4 c t _ hNotQuote ih => exact inside c t hNotQuote ih
  | case5 ih => exact lone [] (by simp) ih
  | case6 c t hNotQuote hOpens ih => exact opening c t hNotQuote hOpens ih
  | case7 c t hNotQuote hNotOpens ih =>
    exact lone (c :: t) (by simpa using ⟨hNotQuote, Bool.eq_false_of_not_eq_true hNotOpens⟩)
      ih
  | case8 c t _ hNotEnd hNoOther hStops =>
    refine stop c t (fun hQuote => ?_) hStops
    cases t with
    | nil => exact hNotEnd hQuote rfl
    | cons b u => exact hNoOther b u hQuote rfl
  | case9 c t _ hNotEnd hNoOther hGoesOn ih =>
    -- an apostrophe would have been read by one of the rules before
    refine plain c t (fun hQuote => ?_) (by simpa using hGoesOn) ih
    cases t with
    | nil => exact hNotEnd hQuote rfl
    | cons b u => exact hNoOther b u hQuote rfl

/-- The rules by which a scan reads its first glyph, where what follows does not matter. -/
theorem scan_cases {motive : Bool → List Char → Prop}
    (nil : ∀ inRun, motive inRun [])
    (pair : ∀ inRun t, motive inRun ('\'' :: '\'' :: t))
    (close : ∀ t, t.head? ≠ some '\'' → motive true ('\'' :: t))
    (inside : ∀ c t, c ≠ '\'' → motive true (c :: t))
    (opening : ∀ c t, c ≠ '\'' → d.opens c = true → motive false ('\'' :: c :: t))
    (lone : ∀ t, (∀ c ∈ t.head?, c ≠ '\'' ∧ d.opens c = false) → motive false ('\'' :: t))
    (stop : ∀ c t, c ≠ '\'' → d.stops c = true → motive false (c :: t))
    (plain : ∀ c t, c ≠ '\'' → d.stops c = false → motive false (c :: t))
    (inRun : Bool) (s : List Char) : motive inRun s :=
  d.scan_induction nil (fun inRun t _ => pair inRun t) (fun t hNext _ => close t hNext)
    (fun c t hNotQuote _ => inside c t hNotQuote)
    (fun c t hNotQuote hOpens _ => opening c t hNotQuote hOpens) (fun t hLone _ => lone t hLone)
    stop (fun c t hNotQuote hGoesOn _ => plain c t hNotQuote hGoesOn) inRun s

end Dialect

/-! ## Trimming -/

namespace Glyph

/-- Trimming reaches into the front part only where the back part is all blanks. -/
theorem trimmed_append (gs hs : List Glyph) :
    trimmed (gs ++ hs) = if trimmed hs = [] then trimmed gs else gs ++ trimmed hs := by
  simp only [trimmed, List.reverse_append, List.dropWhile_append, List.reverse_eq_nil_iff,
    List.isEmpty_iff]
  split <;> simp

/-- There is nothing to trim where no glyph is blank. -/
theorem trimmed_eq_self {gs : List Glyph} (h : ∀ g ∈ gs, g.isBlank = false) :
    trimmed gs = gs := by
  have hDrop : gs.reverse.dropWhile isBlank = gs.reverse := by
    cases hRev : gs.reverse with
    | nil => rfl
    | cons g t =>
      have hMem : g ∈ gs := by
        rw [← List.mem_reverse, hRev]
        exact List.mem_cons_self ..
      rw [List.dropWhile_cons_of_neg (by simp [h g hMem])]
  rw [trimmed, hDrop, List.reverse_reverse]

/-- Trimming leaves nothing where all glyphs are blank. -/
theorem trimmed_eq_nil_iff {gs : List Glyph} :
    trimmed gs = [] ↔ ∀ g ∈ gs, g.isBlank = true := by
  rw [trimmed, List.reverse_eq_nil_iff, List.dropWhile_eq_nil_iff]
  simp

/-- What trimming leaves out are blanks, and it leaves them out for good. -/
theorem exists_blanks (glyphs : List Glyph) :
    ∃ blanks, glyphs = trimmed glyphs ++ blanks ∧ trimmed blanks = [] ∧
      trimmed (trimmed glyphs) = trimmed glyphs := by
  obtain ⟨blanks, hGlyphs⟩ := trimmed_prefix glyphs
  have hTrimmed : trimmed (trimmed glyphs ++ blanks) = trimmed glyphs := by rw [← hGlyphs]
  rw [trimmed_append] at hTrimmed
  by_cases hBlanks : trimmed blanks = []
  · rw [if_pos hBlanks] at hTrimmed
    exact ⟨blanks, hGlyphs, hBlanks, hTrimmed⟩
  · rw [if_neg hBlanks] at hTrimmed
    exact absurd (List.append_right_eq_self.mp hTrimmed) hBlanks

/-- Unquoted blanks are blanks of the source. -/
theorem isBlank_of_mem_sourceOf {gs : List Glyph} (h : ∀ g ∈ gs, g.isBlank = true)
    {c : Char} (hc : c ∈ sourceOf gs) : MessagePattern.isBlank c = true := by
  obtain ⟨g, hg, hSource⟩ := List.mem_flatMap.mp hc
  have hBlank := h g hg
  cases g with
  | bare b =>
    obtain rfl : c = b := by simpa [source] using hSource
    exact hBlank
  | _ => simp [isBlank] at hBlank

end Glyph

namespace Declared

/-! ## The glyphs of a piece -/

/-- From a text on, a scan gives certain glyphs first and goes on, unquoted, in the
text after them; the glyphs stand for a value. -/
structure Gives (d : Dialect) (quoted : Bool) (s v rest : List Char) (gs : List Glyph) :
    Prop where
  scan : d.scan quoted s = ⟨gs ++ (d.scan false rest).glyphs, (d.scan false rest).rest⟩
  source : Glyph.sourceOf gs ++ rest = s
  value : Glyph.valueOf gs = v

/-- A step of a scan gives one more glyph. -/
theorem Gives.cons {d : Dialect} {quoted quoted' : Bool} {s t v rest : List Char}
    {gs : List Glyph}
    (g : Glyph) (hStep : d.scan quoted' s = (d.scan quoted t).cons g)
    (hSource : g.source ++ t = s)
    (h : Gives d quoted t v rest gs) :
    Gives d quoted' s (g.value ++ v) rest (g :: gs) where
  scan := by rw [hStep, h.scan]; rfl
  source := by rw [Glyph.sourceOf_cons, List.append_assoc, h.source, hSource]
  value := by rw [Glyph.valueOf_cons, h.value]

theorem Gives.nil (d : Dialect) (s : List Char) : Gives d false s [] s [] where
  scan := rfl
  source := rfl
  value := rfl

/-- The scan of a quoted run ends with it, and trimming spares what is quoted. -/
theorem quoted_scan (d : Dialect) {s v rest : List Char} (h : Quoted s v rest) :
    ∃ gs, Gives d true s v rest gs ∧ ∀ g ∈ gs, g.isBlank = false := by
  -- by induction on the run; inside it every glyph is solid, a blank included
  induction h with
  | unclosed => exact ⟨[], ⟨by simp [Dialect.scan], rfl, rfl⟩, by simp⟩
  | @close s hNoPair =>
    exact ⟨[.quote], (Gives.nil d s).cons .quote
      (d.scan_close hNoPair) rfl, by simp [Glyph.isBlank]⟩
  | pair _ ih =>
    obtain ⟨gs, hGives, hSolid⟩ := ih
    exact ⟨.doubled :: gs, hGives.cons .doubled (d.scan_pair true _) rfl,
      by simpa [Glyph.isBlank] using hSolid⟩
  | char hNoQuote _ ih =>
    obtain ⟨gs, hGives, hSolid⟩ := ih
    exact ⟨.quoted _ :: gs, hGives.cons (.quoted _) (d.scan_quoted_char hNoQuote _) rfl,
      by simpa [Glyph.isBlank] using hSolid⟩

/-- A piece that does not begin with a stop character is given by some glyphs. They
are blank only if the piece is an unquoted blank. -/
theorem piece_scan (d : Dialect) {c : Char} {s v rest : List Char}
    (hGoesOn : d.stops c = false) (h : Piece d.opens (c :: s) v rest) :
    ∃ gs, Gives d false (c :: s) v rest gs ∧ gs ≠ [] ∧
      (isBlank c = false → ∀ g ∈ gs, g.isBlank = false) ∧
      (isBlank c = true → gs = [.bare c] ∧ v = [c] ∧ rest = s) := by
  -- only a plain character can be blank; the other pieces begin with an apostrophe
  cases h with
  | plain hNoQuote =>
    refine ⟨[.bare c], (Gives.nil d s).cons (.bare c)
      (d.scan_plain hNoQuote hGoesOn s) rfl, by simp,
      ?_, fun _ => ⟨rfl, rfl, rfl⟩⟩
    intro hSolid
    simpa [Glyph.isBlank] using hSolid
  | pair =>
    exact ⟨[.doubled], (Gives.nil d rest).cons .doubled
      (d.scan_pair false _) rfl, by simp,
      fun _ => by simp [Glyph.isBlank], fun hBlank => absurd hBlank (by decide)⟩
  | quoted hNoPair hOpens hQuoted =>
    obtain ⟨gs, hGives, hSolid⟩ := quoted_scan d hQuoted
    refine ⟨.quote :: gs, hGives.cons .quote (d.scan_open hNoPair hOpens _) rfl, by simp,
      fun _ => ?_, fun hBlank => absurd hBlank (by decide)⟩
    simpa [Glyph.isBlank] using hSolid
  | lone hLone =>
    refine ⟨[.bare '\''],
      (Gives.nil d s).cons (.bare '\'') (d.scan_lone hLone) rfl, by simp,
      fun _ => ?_, fun hBlank => absurd hBlank (by decide)⟩
    simp [Glyph.isBlank, show isBlank '\'' = false by decide]

/-- A piece stands for something. -/
theorem piece_value_ne_nil {opens : Char → Bool} {s v rest : List Char}
    (h : Piece opens s v rest) : v ≠ [] := by
  cases h with
  | quoted hNoPair _ hQuoted =>
    cases hQuoted with
    | close => exact absurd rfl hNoPair
    | pair => exact absurd rfl hNoPair
    | char => simp
  | _ => simp

/-- Text stands for something wherever no special character stops it. -/
theorem textRun_value_ne_nil_iff {poundIsNumber : Bool} {s v rest : List Char}
    (h : TextRun poundIsNumber s v rest) :
    v ≠ [] ↔ ∃ c, s.head? = some c ∧ isSpecial poundIsNumber c = false := by
  cases h with
  | stop hStops =>
    refine ⟨fun hNonempty => absurd rfl hNonempty, fun ⟨c, hHead, hPlain⟩ => ?_⟩
    have hSpecial : isSpecial poundIsNumber c = true := hStops c hHead
    exact absurd (hPlain.symm.trans hSpecial) (by decide)
  | more hGoesOn hPiece =>
    refine ⟨fun _ => ⟨_, rfl, hGoesOn⟩, fun _ hNil => ?_⟩
    exact piece_value_ne_nil hPiece (List.append_eq_nil_iff.mp hNil).1

/-! ## There is always a piece -/

/-- Every text begins with a quoted run, which ends with the text if not before. -/
theorem exists_quoted (s : List Char) :
    ∃ v rest, Quoted s v rest ∧ rest.length ≤ s.length := by
  match s with
  | [] => exact ⟨[], [], .unclosed, Nat.le_refl _⟩
  | c :: t =>
    by_cases hc : c = '\''
    · -- an apostrophe is half of a pair, or it closes the run
      subst hc
      match t with
      | [] => exact ⟨[], [], .close (by simp), by simp⟩
      | d :: u =>
        by_cases hd : d = '\''
        · subst hd
          obtain ⟨v, rest, hQuoted, hLength⟩ := exists_quoted u
          exact ⟨'\'' :: v, rest, .pair hQuoted, by simp only [List.length_cons]; omega⟩
        · exact ⟨[], d :: u, .close (by simpa using hd), by simp⟩
    · obtain ⟨v, rest, hQuoted, hLength⟩ := exists_quoted t
      exact ⟨c :: v, rest, .char hc hQuoted, by simp only [List.length_cons]; omega⟩

/-- Every text that is not empty begins with a piece, whichever characters can be quoted. -/
theorem exists_piece (opens : Char → Bool) (c : Char) (s : List Char) :
    ∃ v rest, Piece opens (c :: s) v rest ∧ rest.length ≤ s.length := by
  -- every piece but the plain character begins with an apostrophe
  by_cases hc : c = '\''
  · -- what an apostrophe means is decided by the character after it
    subst hc
    match s with
    | [] => exact ⟨['\''], [], .lone (by simp), Nat.le_refl _⟩
    | d :: t =>
      by_cases hd : d = '\''
      · subst hd
        exact ⟨['\''], t, .pair, by simp⟩
      · cases hOpens : opens d with
        | true =>
          obtain ⟨v, rest, hQuoted, hLength⟩ := exists_quoted (d :: t)
          exact ⟨v, rest, .quoted hd hOpens hQuoted, hLength⟩
        | false => exact ⟨['\''], d :: t, .lone (by simpa using ⟨hd, hOpens⟩),
          Nat.le_refl _⟩
  · exact ⟨[c], s, .plain hc, Nat.le_refl _⟩

/-- Every text begins with a passage up to the first unquoted stop character. -/
theorem exists_passage (stops opens : Char → Bool) (s : List Char) :
    ∃ v rest, Passage stops opens s v rest := by
  match s with
  | [] => exact ⟨[], [], .stop (by simp)⟩
  | c :: t =>
    cases hStops : stops c with
    | true => exact ⟨[], c :: t, .stop (by simpa using hStops)⟩
    | false =>
      obtain ⟨v, rest, hPiece, hLength⟩ := exists_piece opens c t
      obtain ⟨w, rest', hPassage⟩ := exists_passage stops opens rest
      exact ⟨v ++ w, rest', .more hStops hPiece hPassage⟩
termination_by s.length
decreasing_by simp only [List.length_cons]; omega

/-! ## Passages -/

/-- A passage ends in front of a character that stops it, or at the end of the text. -/
theorem Passage.stops_of_rest {stops opens : Char → Bool} {s v t : List Char}
    (h : Passage stops opens s v t) : ∀ c ∈ t.head?, stops c = true := by
  induction h with
  | stop hStops => exact hStops
  | more _ _ _ ih => exact ih

/-- A passage stands for what the scan of its text gives, and stops where the scan does. -/
theorem passage_scan {d : Dialect} (hQuote : d.stops '\'' = false) {s v rest : List Char}
    (h : Passage d.stops d.opens s v rest) :
    Glyph.valueOf (d.scan false s).glyphs = v ∧ (d.scan false s).rest = rest := by
  induction h with
  | stop hStops =>
    rw [d.scan_stop hQuote hStops]
    exact ⟨rfl, rfl⟩
  | more hGoesOn hPiece _ ih =>
    obtain ⟨gs, hGives, -⟩ := piece_scan d hGoesOn hPiece
    rw [hGives.scan]
    simp only [Glyph.valueOf, List.flatMap_append]
    exact ⟨congrArg₂ (· ++ ·) hGives.value ih.1, ih.2⟩

/-- A scan is the only passage from its text. -/
theorem passage_iff {d : Dialect} (hQuote : d.stops '\'' = false) {s v rest : List Char} :
    Passage d.stops d.opens s v rest ↔
      Glyph.valueOf (d.scan false s).glyphs = v ∧ (d.scan false s).rest = rest := by
  refine ⟨passage_scan hQuote, fun ⟨hValue, hRest⟩ => ?_⟩
  -- there is some passage, and it agrees with the scan
  obtain ⟨v', rest', hPassage⟩ := exists_passage d.stops d.opens s
  obtain ⟨hValue', hRest'⟩ := passage_scan hQuote hPassage
  rwa [← hValue, ← hRest, hValue', hRest']

/-! ## Styles -/

theorem not_quote_of_isBlank {c : Char} (h : isBlank c = true) : c ≠ '\'' := by
  rintro rfl
  exact absurd h (by decide)

theorem not_isBrace_of_isBlank {c : Char} (h : isBlank c = true) : isBrace c = false := by
  cases hBrace : isBrace c with
  | false => rfl
  | true =>
    rcases (by simpa [isBrace] using hBrace : c = '\x7b' ∨ c = '\x7d') with rfl | rfl <;>
      exact absurd h (by decide)

/-- Blanks in front of a brace or of the end begin with no apostrophe. -/
theorem head?_ne_quote_of_blanks {s t : List Char} (hBlanks : Blanks s t)
    (hEnd : ∀ b ∈ t.head?, isBrace b = true) : s.head? ≠ some '\'' := by
  obtain ⟨run, rfl, hInside, -⟩ := hBlanks
  cases run with
  | nil => exact fun hHead => absurd (hEnd '\'' hHead) (by decide)
  | cons c run =>
    have hBlank := hInside c (List.mem_cons_self ..)
    exact fun hHead => not_quote_of_isBlank hBlank (Option.some.inj hHead)

/-- Blanks in front of a brace or of the end are scanned one by one. -/
theorem blanks_scan {s run t : List Char} (hRun : Run isBlank s run t)
    (hEnd : ∀ b ∈ t.head?, isBrace b = true) :
    Dialect.style.scan false s = ⟨run.map .bare, t⟩ := by
  obtain ⟨rfl, hInside, -⟩ := hRun
  -- by induction on the run: blanks are plain characters that do not stop a scan
  induction run with
  | nil => exact Dialect.style.scan_stop rfl hEnd
  | cons c run ih =>
    have hBlank : isBlank c = true := hInside c (List.mem_cons_self ..)
    rw [List.cons_append,
      Dialect.style.scan_plain (not_quote_of_isBlank hBlank)
      (not_isBrace_of_isBlank hBlank),
      ih fun b hb => hInside b (List.mem_cons_of_mem c hb)]
    rfl

/-- A scan that gives blanks only has passed over blanks only. -/
theorem blanks_of_scan {s w t : List Char}
    (hPassage : Passage isBrace (fun _ => true) s w t)
    (hBlanks : ∀ g ∈ (Dialect.style.scan false s).glyphs, g.isBlank = true) :
    Blanks s t ∧ ∀ b ∈ t.head?, isBrace b = true := by
  induction hPassage with
  | @stop s hStops =>
    -- at once at a brace or at the end
    refine ⟨⟨[], rfl, by simp, fun c hc => ?_⟩, hStops⟩
    cases hBlank : isBlank c with
    | false => rfl
    | true => exact absurd (hStops c hc) (by simp [not_isBrace_of_isBlank hBlank])
  | @more c s v t w rest hGoesOn hPiece _ ih =>
    obtain ⟨gs, hGives, hNonempty, hSolid, hSpace⟩ :=
      piece_scan Dialect.style hGoesOn hPiece
    rw [hGives.scan] at hBlanks
    have hAll : ∀ g ∈ gs, g.isBlank = true :=
      fun g hg => hBlanks g (List.mem_append_left _ hg)
    cases hc : isBlank c with
    | false =>
      -- a piece that is no blank has a solid glyph
      obtain ⟨g, hg⟩ := List.exists_mem_of_ne_nil gs hNonempty
      exact absurd (hAll g hg) (by simp [hSolid hc g hg])
    | true =>
      -- a piece that is blank is one character of the run
      obtain ⟨-, -, rfl⟩ := hSpace hc
      obtain ⟨⟨run, hSplit, hInside, hOutside⟩, hEnd⟩ :=
        ih fun g hg => hBlanks g (List.mem_append_right _ hg)
      refine ⟨⟨c :: run, by rw [hSplit, List.cons_append], ?_, hOutside⟩, hEnd⟩
      simpa using ⟨hc, hInside⟩

/-- The glyphs of a style are those of a scan, trimmed. -/
theorem style_scan {s v rest : List Char} (h : Style s v rest) :
    ∃ gs, Glyph.trimmed (Dialect.style.scan false s).glyphs = gs ∧ gs ≠ [] ∧
      Glyph.sourceOf gs ++ rest = s ∧ Glyph.valueOf gs = v := by
  induction h with
  | @last c s v rest t hGoesOn hSolidChar hPiece hBlanks hEnd =>
    obtain ⟨gs, hGives, hNonempty, hSolid, -⟩ := piece_scan Dialect.style hGoesOn hPiece
    obtain ⟨run, hRun⟩ := hBlanks
    refine ⟨gs, ?_, hNonempty, hGives.source, hGives.value⟩
    -- trimming takes the blanks after the last piece, and nothing of the piece
    have hTail : Glyph.trimmed (run.map .bare) = [] :=
      Glyph.trimmed_eq_nil_iff.mpr (by simpa [Glyph.isBlank] using hRun.inside)
    rw [hGives.scan, blanks_scan hRun hEnd, Glyph.trimmed_append, if_pos hTail,
      Glyph.trimmed_eq_self (hSolid hSolidChar)]
  | @more c s v t w rest hGoesOn hPiece _ ih =>
    obtain ⟨gs, hGives, hNonempty, -, -⟩ := piece_scan Dialect.style hGoesOn hPiece
    obtain ⟨hs, hTrimmed, hTailNonempty, hSource, hValue⟩ := ih
    -- a style follows, so trimming does not reach this piece
    refine ⟨gs ++ hs, ?_, by simp [hNonempty], ?_, ?_⟩
    · rw [hGives.scan, Glyph.trimmed_append, if_neg (hTrimmed ▸ hTailNonempty), hTrimmed]
    · rw [Glyph.sourceOf_append, List.append_assoc, hSource, hGives.source]
    · rw [← hGives.value, ← hValue, Glyph.valueOf, List.flatMap_append]
      rfl

/-- A text of which a scan finds more than blanks begins with a style. -/
theorem exists_style {s v rest : List Char}
    (hPassage : Passage isBrace (fun _ => true) s v rest)
    (h : Glyph.trimmed (Dialect.style.scan false s).glyphs ≠ []) :
    ∃ w t, Style s w t := by
  induction hPassage with
  | stop hStops =>
    rw [Dialect.style.scan_stop rfl hStops] at h
    exact absurd rfl h
  | @more c s v t w rest hGoesOn hPiece hMore ih =>
    obtain ⟨gs, hGives, hNonempty, hSolid, hSpace⟩ :=
      piece_scan Dialect.style hGoesOn hPiece
    rw [hGives.scan, Glyph.trimmed_append] at h
    by_cases hTail : Glyph.trimmed (Dialect.style.scan false t).glyphs = []
    · -- only blanks follow, so this is the last piece
      rw [if_pos hTail] at h
      obtain ⟨hBlanks, hEnd⟩ := blanks_of_scan hMore (Glyph.trimmed_eq_nil_iff.mp hTail)
      cases hc : isBlank c with
      | false => exact ⟨v, t, .last hGoesOn hc hPiece hBlanks hEnd⟩
      | true =>
        obtain ⟨rfl, -, -⟩ := hSpace hc
        exact absurd (Glyph.trimmed_eq_nil_iff.mpr (by simpa [Glyph.isBlank] using hc)) h
    · obtain ⟨w', t', hStyle⟩ := ih hTail
      exact ⟨v ++ w', t', .more hGoesOn hPiece hStyle⟩

/-- A style stands for something. -/
theorem style_value_ne_nil {s v rest : List Char} (h : Style s v rest) : v ≠ [] := by
  cases h with
  | last _ _ hPiece => exact piece_value_ne_nil hPiece
  | more _ hPiece => simp [piece_value_ne_nil hPiece]

/-- A style is the one that a scan finds. -/
theorem style_iff {s v rest : List Char} :
    Style s v rest ↔ (StyleScan.ofSource s).glyphs ≠ [] ∧
      Glyph.valueOf (StyleScan.ofSource s).glyphs = v ∧
      s.drop (StyleScan.ofSource s).source.length = rest := by
  have hScan : ∀ {w t}, Style s w t → (StyleScan.ofSource s).glyphs ≠ [] ∧
      Glyph.valueOf (StyleScan.ofSource s).glyphs = w ∧
        s.drop (StyleScan.ofSource s).source.length = t := by
    intro w t hStyle
    obtain ⟨gs, hTrimmed, hNonempty, hSource, hValue⟩ := style_scan hStyle
    have hGlyphs : (StyleScan.ofSource s).glyphs = gs := hTrimmed
    refine ⟨hGlyphs ▸ hNonempty, hGlyphs ▸ hValue, ?_⟩
    calc s.drop (StyleScan.ofSource s).source.length
        = (Glyph.sourceOf gs ++ t).drop (Glyph.sourceOf gs).length := by
          rw [StyleScan.source, hGlyphs, hSource]
      _ = t := List.drop_left
  refine ⟨hScan, fun ⟨hNonempty, hValue, hRest⟩ => ?_⟩
  -- the text has some style, and the scan can be of no other
  obtain ⟨v', rest', hPassage⟩ := exists_passage isBrace (fun _ => true) s
  obtain ⟨w, t, hStyle⟩ := exists_style hPassage hNonempty
  obtain ⟨-, hValue', hRest'⟩ := hScan hStyle
  rwa [← hValue, ← hRest, hValue', hRest']

/-- A style is found where the scan of one gives a value. -/
theorem style_of_value {s : List Char}
    (hValue : (StyleScan.ofSource s).value.isEmpty = false) :
    Style s (Glyph.valueOf (StyleScan.ofSource s).glyphs)
      (s.drop (StyleScan.ofSource s).source.length) := by
  refine style_iff.mpr ⟨fun hNil => ?_, rfl, rfl⟩
  simp [StyleScan.value, hNil] at hValue

theorem blanks_passage {s run t : List Char} (hRun : Run isBlank s run t)
    (hEnd : ∀ b ∈ t.head?, isBrace b = true) :
    Passage isBrace (fun _ => true) s run t := by
  obtain ⟨rfl, hInside, -⟩ := hRun
  induction run with
  | nil => exact .stop hEnd
  | cons c run ih =>
    have hBlank : isBlank c = true := hInside c (List.mem_cons_self ..)
    exact .more (not_isBrace_of_isBlank hBlank) (.plain (not_quote_of_isBlank hBlank))
      (ih fun b hb => hInside b (List.mem_cons_of_mem c hb))

/-- The first unquoted brace after a style is the one after the blanks behind it. -/
theorem style_firstBrace {s v rest t : List Char} (h : Style s v rest)
    (hBlanks : Blanks rest t) (hEnd : ∀ b ∈ t.head?, isBrace b = true) :
    FirstBrace s t := by
  induction h with
  | last hGoesOn _ hPiece =>
    obtain ⟨run, hRun⟩ := hBlanks
    exact ⟨_, .more hGoesOn hPiece (blanks_passage hRun hEnd)⟩
  | more hGoesOn hPiece _ ih =>
    obtain ⟨w, hPassage⟩ := ih hBlanks
    exact ⟨_, .more hGoesOn hPiece hPassage⟩

/-- The first unquoted brace is where a scan of the style stops. -/
theorem firstBrace_iff {s t : List Char} :
    FirstBrace s t ↔ (StyleScan.ofSource s).stop = t := by
  have hScan : ∀ v, Passage isBrace (fun _ => true) s v t ↔ _ := fun v =>
    passage_iff (d := Dialect.style) rfl
  refine ⟨?_, ?_⟩
  · rintro ⟨v, hPassage⟩
    exact ((hScan v).mp hPassage).2
  · intro hStop
    exact ⟨_, (hScan _).mpr ⟨rfl, hStop⟩⟩

/-- A scan of a style ends in front of a brace, or at the end of the text. -/
theorem isBrace_of_stop (s : List Char) :
    ∀ b ∈ (StyleScan.ofSource s).stop.head?, isBrace b = true := by
  obtain ⟨v, hPassage⟩ := firstBrace_iff.mpr (rfl : (StyleScan.ofSource s).stop = _)
  exact hPassage.stops_of_rest

/-- After the source text of a style there are blanks, up to the end of the scan. -/
theorem blanks_stop (s : List Char) :
    Blanks (s.drop (StyleScan.ofSource s).source.length) (StyleScan.ofSource s).stop := by
  obtain ⟨blanks, hGlyphs, hTrimmed, -⟩ :=
    Glyph.exists_blanks (Dialect.style.scan false s).glyphs
  -- what trimming drops lies between the style and the stop
  have hSplit := Stretch.source_append_rest Dialect.style false s
  rw [hGlyphs, Glyph.sourceOf_append, List.append_assoc] at hSplit
  have hDrop : (Glyph.sourceOf (Glyph.trimmed (Dialect.style.scan false s).glyphs) ++
      (Glyph.sourceOf blanks ++ (Dialect.style.scan false s).rest)).drop
        (StyleScan.ofSource s).source.length =
      Glyph.sourceOf blanks ++ (StyleScan.ofSource s).stop := List.drop_left
  rw [hSplit] at hDrop
  refine ⟨Glyph.sourceOf blanks, hDrop, fun c hc => ?_, fun b hb => ?_⟩
  · exact Glyph.isBlank_of_mem_sourceOf (Glyph.trimmed_eq_nil_iff.mp hTrimmed) hc
  · cases hBlank : isBlank b with
    | false => rfl
    | true =>
      -- a brace is no blank
      exact absurd (isBrace_of_stop s b hb) (by simp [not_isBrace_of_isBlank hBlank])

/-- A style that stands for nothing has no glyphs. -/
theorem glyphs_eq_nil_of_value {s : List Char}
    (hValue : (StyleScan.ofSource s).value.isEmpty = true) :
    (StyleScan.ofSource s).glyphs = [] := by
  by_contra hSome
  have hStyle := style_iff.mpr ⟨hSome, rfl, rfl⟩
  exact style_value_ne_nil hStyle (by simpa [StyleScan.value] using hValue)

/-- A scan stops at an opening brace exactly where the first unquoted brace is one. -/
theorem stopsAtOpenBrace_iff {s : List Char} :
    (StyleScan.ofSource s).stopsAtOpenBrace = true ↔ ∃ t, FirstBrace s ('\x7b' :: t) := by
  simp only [firstBrace_iff, StyleScan.stopsAtOpenBrace, beq_iff_eq,
    List.head?_eq_some_iff]

end Declared

end MessagePattern
