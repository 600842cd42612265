import MessagePattern.Proofs.Unspaced

/-!
# The bounds of a style

A style is scanned before it is read. The scan finds two places: the end of the style, after
its last character that is no unquoted blank, and the stop, at the first unquoted brace or at
the end of the source. Between the two there is nothing but blanks, so reading the style and
then blanks leads to the stop. What is cut out between the start and the end is scanned alike
by itself, though the text after its last apostrophe is another one then.

* `StyleScan.endFrom`, `StyleScan.stopFrom` — the two places, for a scan from a cursor on;
* `StyleScan.Bounded` — what the places are bound to;
* `StyleScan.exists_parts` — the scanned text is the style, blanks, and the text at the stop;
* `Reader.runAt_styleScan` — every scan is bounded, and reading the style leads to its end.
-/

namespace MessagePattern

open Declared

namespace StyleScan

/-! ## The places a scan finds -/

/-- The cursor past the last significant character of a style that was scanned from a cursor
on. -/
def endFrom (scan : StyleScan) (start : Cursor) : Cursor :=
  { start with pos := start.pos + scan.source.length }

/-- The cursor at the unquoted brace that ended a scan from a cursor on, or at the end. -/
def stopFrom (scan : StyleScan) (start : Cursor) : Cursor :=
  { start with pos := start.pos + (start.rest.length - scan.stop.length) }

/-- The source text of a style that was scanned from a cursor on, cut out of the source. -/
def rawFrom (scan : StyleScan) (start : Cursor) : String :=
  start.sliceTo (scan.endFrom start).pos

/-- What the places of a style are bound to that is scanned from a cursor on. -/
structure Bounded (scan : StyleScan) (start : Cursor) : Prop where
  start_le_end : start.pos ≤ (scan.endFrom start).pos
  end_le_stop : (scan.endFrom start).pos ≤ (scan.stopFrom start).pos
  /-- The scan stops at the end of the source or at a brace. -/
  stops : (scan.stopFrom start).pos = max start.pos start.source.length ∨
    ∃ b, (scan.stopFrom start).current? = some b ∧ isBrace b = true
  /-- The brace is not quoted, and no other unquoted brace stands in front of it. -/
  unquoted : FirstBrace start.rest (scan.stopFrom start).rest
  /-- Between the end of the style and the stop there are blanks only. -/
  blanks : ∀ i, (scan.endFrom start).pos ≤ i → i < (scan.stopFrom start).pos →
    ∃ c, start.source.toList[i]? = some c ∧ isBlank c = true
  value_eq_empty_iff : scan.value = "" ↔ scan.endFrom start = start
  /-- As a source of its own, the text of the style has the same value, and it is all style. -/
  alone : ∃ own, Reader.styleScan.runAt ⟨scan.rawFrom start, 0⟩ =
      ⟨.ok own, [], ⟨scan.rawFrom start, 0⟩⟩ ∧
    own.value = scan.value ∧
    own.endFrom ⟨scan.rawFrom start, 0⟩ = ⟨scan.rawFrom start, (scan.rawFrom start).length⟩

/-! ## The parts of the scanned text -/

/-- A text is the style in front of it, blanks, and the text at which the scan stops. -/
theorem exists_parts (s : List Char) :
    ∃ run, s = (ofSource s).source ++ (run ++ (ofSource s).stop) ∧
      Run isBlank (s.drop (ofSource s).source.length) run (ofSource s).stop := by
  obtain ⟨run, hRun⟩ := blanks_stop s
  have hSplit := source_append_drop s
  rw [hRun.split] at hSplit
  exact ⟨run, hSplit.symm, hRun⟩

/-- A style that is cut out is all style. -/
theorem ofSource_source (s : List Char) :
    ofSource (ofSource s).source = ⟨(ofSource s).glyphs, []⟩ := by
  obtain ⟨-, -, -, hTwice⟩ := Glyph.exists_blanks (Dialect.style.scan false s).glyphs
  have hGlyphs : Glyph.trimmed (ofSource s).glyphs = (ofSource s).glyphs := hTwice
  rw [ofSource.eq_1 (ofSource s).source, scan_source]
  simp only [hGlyphs]

/-- The value of a style is empty only where nothing was read for it. -/
theorem value_eq_empty_iff_source {s : List Char} :
    (ofSource s).value = "" ↔ (ofSource s).source = [] := by
  refine ⟨fun hValue => ?_, fun hSource => ?_⟩
  · have hEmpty : (ofSource s).value.isEmpty = true := by
      rw [hValue]
      rfl
    rw [source, glyphs_eq_nil_of_value hEmpty]
    rfl
  · by_contra hValue
    exact source_ne_nil (by simpa using hValue) hSource

/-! ## The places in the source -/

@[simp] theorem pos_endFrom (scan : StyleScan) (start : Cursor) :
    (scan.endFrom start).pos = start.pos + scan.source.length := rfl

section
variable {scan : StyleScan} {start : Cursor} {run : List Char}
  (hParts : start.rest = scan.source ++ (run ++ scan.stop))
include hParts

/-- The stop is as far from the end of the style as there are blanks between them. -/
theorem pos_stopFrom :
    (scan.stopFrom start).pos = start.pos + scan.source.length + run.length := by
  have hLength := congrArg List.length hParts
  simp only [List.length_append] at hLength
  unfold stopFrom
  show start.pos + (start.rest.length - scan.stop.length) = _
  omega

/-- After a style come the blanks up to where the scan stopped. -/
theorem rest_endFrom : (scan.endFrom start).rest = run ++ scan.stop := by
  unfold endFrom
  rw [start.rest_forward, hParts]
  exact List.drop_left

/-- The text at the stop is the text at which the scan stopped. -/
theorem rest_stopFrom : (scan.stopFrom start).rest = scan.stop := by
  have hStop : scan.stopFrom start =
      { scan.endFrom start with pos := (scan.endFrom start).pos + run.length } :=
    congrArg (Cursor.mk start.source) (pos_stopFrom hParts)
  rw [hStop, Cursor.rest_forward, rest_endFrom hParts]
  exact List.drop_left

/-- What is cut out is the source text of the style. -/
theorem toList_rawFrom : (scan.rawFrom start).toList = scan.source := by
  have hWidth : start.pos + scan.source.length - start.pos = scan.source.length := by omega
  unfold rawFrom Cursor.sliceTo
  rw [pos_endFrom, hWidth, String.toList_ofList, hParts]
  exact List.take_left

/-- The characters of the blanks, by their places in the source. -/
theorem exists_blank (hBlank : ∀ c ∈ run, isBlank c = true) {i : Nat}
    (hEnd : (scan.endFrom start).pos ≤ i) (hStop : i < (scan.stopFrom start).pos) :
    ∃ c, start.source.toList[i]? = some c ∧ isBlank c = true := by
  rw [pos_stopFrom hParts] at hStop
  rw [pos_endFrom] at hEnd
  obtain ⟨j, rfl⟩ := Nat.exists_eq_add_of_le hEnd
  have hInside : j < run.length := by omega
  refine ⟨run[j], ?_, hBlank _ (List.getElem_mem hInside)⟩
  -- the text after the end of the style begins with the blanks
  have hAfter : start.source.toList.drop (start.pos + scan.source.length) =
      run ++ scan.stop := rest_endFrom hParts
  rw [← List.getElem?_drop, hAfter, List.getElem?_append_left hInside,
    List.getElem?_eq_getElem hInside]

/-- A scan stops at the end of the source, or at a brace. -/
theorem stops_of_parts (hBrace : ∀ b ∈ scan.stop.head?, isBrace b = true) :
    (scan.stopFrom start).pos = max start.pos start.source.length ∨
      ∃ b, (scan.stopFrom start).current? = some b ∧ isBrace b = true := by
  -- the character at the stop is what the scan has left
  have hCurrent : (scan.stopFrom start).current? = scan.stop.head? := by
    unfold Cursor.current?
    rw [rest_stopFrom hParts]
  cases hHead : scan.stop.head? with
  | some b => exact .inr ⟨b, hCurrent.trans hHead, hBrace b hHead⟩
  | none =>
    -- all of the source has been scanned
    left
    have hNil : scan.stop = [] := List.head?_eq_none_iff.mp hHead
    have hLength : start.rest.length = start.source.length - start.pos := by
      unfold Cursor.rest
      rw [List.length_drop, String.length_toList]
    unfold stopFrom
    show start.pos + (start.rest.length - scan.stop.length) = _
    rw [hNil, hLength, List.length_nil]
    omega

end

/-- A scan reads nothing and logs nothing. -/
theorem runAt_styleScan_eq (start : Cursor) :
    Reader.styleScan.runAt start = ⟨.ok (ofSource start.rest), [], start⟩ :=
  Reader.runAt_of_run (k := 0) rfl (Nat.zero_le _)

/-- What a scan finds is cut out of the source, and scanned by itself it is all style. -/
theorem alone_of_parts {start : Cursor} {run : List Char}
    (hParts : start.rest = (ofSource start.rest).source ++ (run ++ (ofSource start.rest).stop)) :
    ∃ own, Reader.styleScan.runAt ⟨(ofSource start.rest).rawFrom start, 0⟩ =
        ⟨.ok own, [], ⟨(ofSource start.rest).rawFrom start, 0⟩⟩ ∧
      own.value = (ofSource start.rest).value ∧
      own.endFrom ⟨(ofSource start.rest).rawFrom start, 0⟩ =
        ⟨(ofSource start.rest).rawFrom start,
          ((ofSource start.rest).rawFrom start).length⟩ := by
  have hRaw := toList_rawFrom hParts
  generalize (ofSource start.rest).rawFrom start = raw at hRaw ⊢
  -- what was read is read again by itself, with nothing after it
  have hOwn : ofSource raw.toList = ⟨(ofSource start.rest).glyphs, []⟩ := by
    rw [hRaw, ofSource_source]
  refine ⟨ofSource raw.toList, runAt_styleScan_eq ⟨raw, 0⟩, ?_, ?_⟩
  · rw [hOwn]
    rfl
  · have hLength : (ofSource raw.toList).source.length = raw.length := by
      rw [hOwn, ← String.length_toList, hRaw]
      rfl
    unfold endFrom
    rw [hLength, Nat.zero_add]

/-- The scan of a style keeps all of the bounds. -/
theorem bounded_ofSource (start : Cursor) : (ofSource start.rest).Bounded start := by
  obtain ⟨run, hParts, hRun⟩ := exists_parts start.rest
  -- nothing was read for the style exactly if it ends where it starts
  have hSource : (ofSource start.rest).endFrom start = start ↔
      (ofSource start.rest).source = [] := by
    unfold endFrom
    rw [← List.length_eq_zero_iff]
    refine ⟨fun hSame => ?_, fun hNone => by rw [hNone]; rfl⟩
    have hPos : start.pos + (ofSource start.rest).source.length = start.pos :=
      congrArg Cursor.pos hSame
    omega
  exact {
    start_le_end := by
      rw [pos_endFrom]
      omega
    end_le_stop := by
      rw [pos_stopFrom hParts, pos_endFrom]
      omega
    stops := stops_of_parts hParts (isBrace_of_stop start.rest)
    unquoted := by
      rw [rest_stopFrom hParts]
      exact firstBrace_iff.mpr rfl
    blanks := fun i hEnd hStop => exists_blank hParts hRun.inside hEnd hStop
    value_eq_empty_iff := value_eq_empty_iff_source.trans hSource.symm
    alone := alone_of_parts hParts }

end StyleScan

namespace Reader

/-- **A style is bounded, and the blanks after it lead to the stop.** Whatever the source and
the cursor: a scan moves nothing and logs nothing, and what it finds keeps to the bounds.
Reading the style leads to its end, and reading blanks from there to the stop. -/
theorem runAt_styleScan (start : Cursor) :
    ∃ scan, styleScan.runAt start = ⟨.ok scan, [], start⟩ ∧ scan.Bounded start ∧
      (commitStyle scan).runAt start =
        ⟨.ok scan.value, [⟨.style, scan.rawFrom start⟩], scan.endFrom start⟩ ∧
      (space.runAt (scan.endFrom start)).result = .ok () ∧
      (space.runAt (scan.endFrom start)).cursor = scan.stopFrom start := by
  -- the text: the style, the blanks after it, and what stopped the scan
  obtain ⟨run, hParts, hRun⟩ := StyleScan.exists_parts start.rest
  refine ⟨_, StyleScan.runAt_styleScan_eq start, StyleScan.bounded_ofSource start, ?_, ?_⟩
  · -- the token of a style holds what was read of the source
    have hRaw : (StyleScan.ofSource start.rest).rawFrom start =
        String.ofList (StyleScan.ofSource start.rest).source := by
      rw [← StyleScan.toList_rawFrom hParts, String.ofList_toList]
    have hWidth := congrArg List.length hParts
    simp only [List.length_append] at hWidth
    rw [hRaw]
    exact runAt_of_run rfl (by omega)
  · -- the blanks are the next thing to be read, and all of them are
    have hRest := StyleScan.rest_endFrom hParts
    have hBlanks : Run isBlank ((StyleScan.ofSource start.rest).endFrom start).rest run
        (StyleScan.ofSource start.rest).stop := ⟨hRest, hRun.inside, hRun.outside⟩
    have hSpace := run_space hBlanks
    have hDrop : ((StyleScan.ofSource start.rest).endFrom start).rest.drop run.length =
        (StyleScan.ofSource start.rest).stop := by
      rw [hRest]
      exact List.drop_left
    rw [← hDrop] at hSpace
    have hAt := runAt_of_run hSpace (by rw [hRest, List.length_append]; omega)
    rw [hAt]
    exact ⟨rfl, congrArg (Cursor.mk start.source) (StyleScan.pos_stopFrom hParts).symm⟩

end Reader

end MessagePattern
