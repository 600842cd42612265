import MessagePattern.Proofs.Cut

/-!
# Text tokens stand alone

A token of message text is a stretch of the pattern, quoting unresolved. Cut out, it is a
pattern of its own, and the end of that pattern stands where a special character stood.
An apostrophe looks at the next character, so this could change what the last one means;
but in front of a special character no apostrophe stands alone. So the token is read as it
was read where it stood.

* `Reader.textLog` — the log of message text;
* `Reader.exists_run_text` — what is read of a text, what is left, and how the part that was
  taken is read by itself;
* `Reader.runAt_text_alone` — the same from a cursor on.
-/

namespace MessagePattern

namespace Reader

/-- The log of message text: one token, or none where no text was taken. -/
def textLog (taken : String) : List Token := if taken = "" then [] else [⟨.text, taken⟩]

/-- A text that begins with no special character is read as text that stands for
something. -/
theorem text_value_ne_empty {b : Bool} {s rest : List Char} {value : String} {c : Char}
    (h : (text b).Accepts s value rest) (hHead : s.head? = some c)
    (hPlain : isSpecial b c = false) : value ≠ "" := by
  obtain ⟨v, hRun, rfl⟩ := accepts_text.mp h
  have hSome : v ≠ [] := (Declared.textRun_value_ne_nil_iff hRun).mpr ⟨c, hHead, hPlain⟩
  simpa using hSome

/-- The part of a text that is read as message text is read alike by itself. It stands for
something where a character that is not special stands in front. -/
theorem exists_run_text (b : Bool) (s : List Char) :
    ∃ (value taken : String) (rest : List Char), s = taken.toList ++ rest ∧
      (text b).run s = ⟨.ok value, textLog taken, rest⟩ ∧
      (text b).run taken.toList = ⟨.ok value, textLog taken, []⟩ ∧
      ∀ c, s.head? = some c → isSpecial b c = false → taken ≠ "" ∧ value ≠ "" := by
  have hSource := Stretch.source_append_rest (Dialect.text b) false s
  have hAlone := (Dialect.text b).scan_cut (fun _ hStops => hStops) false s
  obtain ⟨stretch, hScan⟩ : ∃ stretch, (Dialect.text b).scan false s = stretch := ⟨_, rfl⟩
  rw [hScan] at hSource hAlone
  have hRun := run_text hScan
  refine ⟨String.ofList (Glyph.valueOf stretch.glyphs),
    String.ofList (Glyph.sourceOf stretch.glyphs), stretch.rest, ?_, ?_, ?_, ?_⟩
  · rw [String.toList_ofList, hSource]
  · rw [hRun]
    simp only [textLog, String.isEmpty_iff]
  · rw [String.toList_ofList, run_text hAlone]
    simp only [textLog, String.isEmpty_iff]
  · intro c hHead hPlain
    have hValue : String.ofList (Glyph.valueOf stretch.glyphs) ≠ "" :=
      text_value_ne_empty ⟨by rw [hRun], by rw [hRun]⟩ hHead hPlain
    refine ⟨fun hNone => hValue ?_, hValue⟩
    -- nothing would stand for nothing
    cases hGlyphs : stretch.glyphs with
    | nil => rfl
    | cons g gs =>
      rw [hGlyphs, Glyph.sourceOf_cons, String.ofList_eq_empty_iff, List.append_eq_nil_iff] at hNone
      exact absurd hNone.1 g.source_ne_nil

/-- **Text tokens stand alone.** Whatever the source and the cursor, reading message text
succeeds, moves the cursor past what it takes, and logs that as one token, unless it takes
nothing. On a source that consists of what was taken, it takes all of it, gives the same
value and logs the same token. Where a character stands at the cursor that is not special,
something is taken, and it stands for something. -/
theorem runAt_text_alone (b : Bool) (c : Cursor) :
    ∃ value taken : String,
      (text b).runAt c =
        ⟨.ok value, textLog taken, { c with pos := c.pos + taken.length }⟩ ∧
      (text b).runAt ⟨taken, 0⟩ = ⟨.ok value, textLog taken, ⟨taken, taken.length⟩⟩ ∧
      ∀ next, c.current? = some next → isSpecial b next = false →
        taken ≠ "" ∧ value ≠ "" := by
  obtain ⟨value, taken, rest, hSplit, hRun, hAlone, hSome⟩ := exists_run_text b c.rest
  have hDrop : c.rest.drop taken.length = rest := by
    rw [hSplit]
    exact List.drop_left' (String.length_toList ..)
  have hWidth : taken.length ≤ c.rest.length := by
    rw [hSplit, List.length_append, String.length_toList]
    omega
  have hEnd : taken.toList.drop taken.length = [] :=
    List.drop_of_length_le (String.length_toList ..).le
  refine ⟨value, taken, ?_, ?_, fun next hNext => hSome next hNext⟩
  · exact runAt_of_run (by rw [hDrop, hRun]) hWidth
  · have hOwn : (Cursor.mk taken 0).rest = taken.toList := rfl
    have hAt := runAt_of_run (c := ⟨taken, 0⟩) (k := taken.length)
      (by rw [hOwn, hEnd, hAlone]) (by rw [hOwn, String.length_toList])
    rw [hAt, Nat.zero_add]

/-- An apostrophe that closes a quoted run in front of a brace closes it at the end, too. -/
example : (text false).runAt ⟨"\x7bit''s '\x7b'\x7d", 1⟩ =
      ⟨.ok "it's \x7b", [⟨.text, "it''s '\x7b'"⟩], ⟨"\x7bit''s '\x7b'\x7d", 10⟩⟩ ∧
    (text false).runAt ⟨"it''s '\x7b'", 0⟩ =
      ⟨.ok "it's \x7b", [⟨.text, "it''s '\x7b'"⟩], ⟨"it''s '\x7b'", 9⟩⟩ := by
  cbv

end Reader

end MessagePattern
