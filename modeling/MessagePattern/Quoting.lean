import MessagePattern.Blank

/-!
# Quoting

How apostrophes are read. Two in a row stand for one. A single apostrophe opens a quoted run when the
character after it is one that the dialect lets it quote; the run lasts to the next single apostrophe,
or to the end of the source. Any other apostrophe stands for itself.

Message text and placeholder styles differ only in which characters end a run of source text and which
may be quoted, so both are read by one scan over a `Dialect`.

* `Glyph` — a source fragment together with what it stands for;
* `Dialect.scan` — the glyphs up to the first unquoted stop character;
* `Stretch.source_append_rest` — a scan neither loses nor adds source text;
* `StyleScan.ofSource` — a style, with the blanks after its last significant glyph left out.
-/

namespace MessagePattern

/-- A fragment of source text that is read as a whole. -/
inductive Glyph where
  /-- An unquoted character that stands for itself. -/
  | bare (c : Char)
  /-- Two apostrophes, which stand for one. -/
  | doubled
  /-- An apostrophe that opens or closes a quoted run and stands for nothing. -/
  | quote
  /-- A character of a quoted run, which stands for itself. -/
  | quoted (c : Char)
  deriving DecidableEq, Repr

namespace Glyph

/-- The source text of a glyph. -/
def source : Glyph → List Char
  | .bare c => [c]
  | .doubled => ['\'', '\'']
  | .quote => ['\'']
  | .quoted c => [c]

/-- What a glyph stands for. -/
def value : Glyph → List Char
  | .bare c => [c]
  | .doubled => ['\'']
  | .quote => []
  | .quoted c => [c]

/-- Whether a glyph is an unquoted blank. -/
def isBlank : Glyph → Bool
  | .bare c => MessagePattern.isBlank c
  | _ => false

/-- The source text of a run of glyphs. -/
def sourceOf (glyphs : List Glyph) : List Char :=
  glyphs.flatMap source

/-- What a run of glyphs stands for. -/
def valueOf (glyphs : List Glyph) : List Char :=
  glyphs.flatMap value

@[simp] theorem sourceOf_nil : sourceOf [] = [] := rfl

@[simp] theorem sourceOf_cons (g : Glyph) (gs : List Glyph) :
    sourceOf (g :: gs) = g.source ++ sourceOf gs := rfl

@[simp] theorem sourceOf_append (gs hs : List Glyph) :
    sourceOf (gs ++ hs) = sourceOf gs ++ sourceOf hs := by
  simp [sourceOf]

@[simp] theorem valueOf_nil : valueOf [] = [] := rfl

@[simp] theorem valueOf_cons (g : Glyph) (gs : List Glyph) :
    valueOf (g :: gs) = g.value ++ valueOf gs := rfl

end Glyph

/-- A run of glyphs and the source text after it. -/
structure Stretch where
  glyphs : List Glyph
  /-- The source text that was not read. -/
  rest : List Char
  deriving DecidableEq, Repr

/-- Puts a glyph in front of a stretch. -/
def Stretch.cons (g : Glyph) (s : Stretch) : Stretch :=
  ⟨g :: s.glyphs, s.rest⟩

@[simp] theorem Stretch.glyphs_cons (g : Glyph) (s : Stretch) :
    (s.cons g).glyphs = g :: s.glyphs := rfl

@[simp] theorem Stretch.rest_cons (g : Glyph) (s : Stretch) : (s.cons g).rest = s.rest := rfl

/-- Which characters end a run of source text, and which an apostrophe quotes. -/
structure Dialect where
  /-- Whether the unquoted character ends the run. -/
  stops : Char → Bool
  /-- Whether a single apostrophe before the character opens a quoted run. -/
  opens : Char → Bool

/-- The braces. -/
def isBrace (c : Char) : Bool :=
  c == '\x7b' || c == '\x7d'

/-- The characters that message text gives a meaning: the braces, and the pound sign where it stands
for the plural number. -/
def isSpecial (poundIsNumber : Bool) (c : Char) : Bool :=
  isBrace c || (poundIsNumber && c == '#')

namespace Dialect

/-- Message text: an apostrophe quotes only before a special character. -/
def text (poundIsNumber : Bool) : Dialect where
  stops := isSpecial poundIsNumber
  opens := isSpecial poundIsNumber

/-- Placeholder styles: a brace ends them, and an apostrophe quotes before any character. -/
def style : Dialect where
  stops := isBrace
  opens := fun _ => true

/-- Reads glyphs up to the first unquoted stop character; `quoted` says whether the scan begins inside
a quoted run. -/
def scan (d : Dialect) : (quoted : Bool) → List Char → Stretch
  | _, [] => ⟨[], []⟩
  -- A pair never opens or closes a run.
  | quoted, '\'' :: '\'' :: t => (d.scan quoted t).cons .doubled
  | true, '\'' :: t => (d.scan false t).cons .quote
  | true, c :: t => (d.scan true t).cons (.quoted c)
  -- An apostrophe opens a run only where there is something to quote.
  | false, ['\''] => (d.scan false []).cons (.bare '\'')
  | false, '\'' :: c :: t =>
    if d.opens c then (d.scan true (c :: t)).cons .quote
    else (d.scan false (c :: t)).cons (.bare '\'')
  | false, c :: t =>
    if d.stops c then ⟨[], c :: t⟩
    else (d.scan false t).cons (.bare c)

end Dialect

/-- The glyphs of a scan and the text after it make up the text that was scanned. -/
theorem Stretch.source_append_rest (d : Dialect) (quoted : Bool) (s : List Char) :
    Glyph.sourceOf (d.scan quoted s).glyphs ++ (d.scan quoted s).rest = s := by
  fun_induction Dialect.scan d quoted s <;> simp_all [Glyph.source]

/-- An unquoted scan of text that begins with no stop character reads something. -/
theorem Dialect.scan_glyphs_ne_nil (d : Dialect) {c : Char} {t : List Char}
    (h : d.stops c = false) : (d.scan false (c :: t)).glyphs ≠ [] := by
  unfold Dialect.scan
  split <;> simp_all
  all_goals (split <;> simp)

/-- The glyphs without the unquoted blanks at their end. -/
def Glyph.trimmed (glyphs : List Glyph) : List Glyph :=
  (glyphs.reverse.dropWhile Glyph.isBlank).reverse

/-- Trimming keeps a front part of the glyphs. -/
theorem Glyph.trimmed_prefix (glyphs : List Glyph) :
    ∃ blanks, glyphs = Glyph.trimmed glyphs ++ blanks := by
  refine ⟨(glyphs.reverse.takeWhile Glyph.isBlank).reverse, ?_⟩
  rw [Glyph.trimmed, ← List.reverse_append, List.takeWhile_append_dropWhile, List.reverse_reverse]

/-- A style as read from the remainder of a placeholder, nothing of which is consumed by reading it. -/
structure StyleScan where
  /-- The glyphs of the style, the blanks after the last significant one left out. -/
  glyphs : List Glyph
  /-- The source text from the unquoted brace that ended the scan, or nothing. -/
  stop : List Char

namespace StyleScan

/-- Reads the style at the front of a source text. -/
def ofSource (s : List Char) : StyleScan :=
  let stretch := Dialect.style.scan false s
  ⟨Glyph.trimmed stretch.glyphs, stretch.rest⟩

/-- The style with quoting resolved. -/
def value (scan : StyleScan) : String :=
  String.ofList (Glyph.valueOf scan.glyphs)

/-- The source text of the style. -/
def source (scan : StyleScan) : List Char :=
  Glyph.sourceOf scan.glyphs

/-- Whether an unquoted opening brace ended the scan. -/
def stopsAtOpenBrace (scan : StyleScan) : Bool :=
  scan.stop.head? == some '\x7b'

end StyleScan

end MessagePattern
