import Mathlib.Data.List.Basic
import Mathlib.Data.Nat.Digits.Defs
import MessagePattern.Json

/-!
# JSON text determines its value

The text of a JSON value can be told from whatever follows it: strings and brackets have an end
of their own, and a number ends where no further digit stands. So two values with the same text
are the same, members and their order included.

* `Json.unescaped?` — a character of a string, read back;
* `Json.quote_append_inj`, `Json.toString_append_inj` — strings and numbers in front of
  any text that may follow them;
* `Json.separated` — texts with commas between them, the form of items and of members;
* `Json.chars_append_inj`, `Json.text_injective` — values in front of a text, and alone.
-/

namespace MessagePattern.Json

/-! ## Strings -/

/-- The number that a hexadecimal digit stands for. -/
def hexValue (c : Char) : Nat :=
  if c.isDigit then c.toNat - '0'.toNat else c.toNat - 'a'.toNat + 10

/-- A hexadecimal digit is read back. -/
theorem hexValue_hexDigit : ∀ n < 16, hexValue (hexDigit n) = n := by decide

/-- The character at the front of the text of a string, and the text after it. -/
def unescaped? : List Char → Option (Char × List Char)
  | '\\' :: 'u' :: '0' :: '0' :: high :: low :: rest =>
    some (Char.ofNat (hexValue high * 16 + hexValue low), rest)
  | '\\' :: 'n' :: rest => some ('\n', rest)
  | '\\' :: 'r' :: rest => some ('\r', rest)
  | '\\' :: 't' :: rest => some ('\t', rest)
  | '\\' :: 'b' :: rest => some ('\x08', rest)
  | '\\' :: 'f' :: rest => some ('\x0c', rest)
  | '\\' :: c :: rest => some (c, rest)
  | c :: rest => some (c, rest)
  | [] => none

/-- An escaped character is read back, and what follows it is left. -/
theorem unescaped?_escaped (c : Char) (rest : List Char) :
    unescaped? (escaped c ++ rest) = some (c, rest) := by
  unfold escaped
  -- the short escapes
  iterate 7
    split
    · next h => subst h; rfl
  split
  · next hControl =>
    show some (Char.ofNat _, rest) = some (c, rest)
    rw [hexValue_hexDigit _ (by omega), hexValue_hexDigit _ (by omega), Nat.div_add_mod',
      Char.ofNat_toNat]
  · -- any other character stands for itself, as it is no backslash
    next hBackslash _ _ _ _ _ _ =>
    rw [List.singleton_append, unescaped?]
    all_goals simp_all

/-- An escape does not begin with a quotation mark. -/
theorem escaped_eq_cons (c : Char) : ∃ d t, escaped c = d :: t ∧ d ≠ '"' := by
  unfold escaped
  iterate 8
    split
    · exact ⟨_, _, rfl, by decide⟩
  exact ⟨c, [], rfl, ‹_›⟩

/-- The characters of a string are told from the quotation mark that ends them. -/
theorem escaped_append_inj {l l' rest rest' : List Char}
    (h : l.flatMap escaped ++ '"' :: rest = l'.flatMap escaped ++ '"' :: rest') :
    l = l' ∧ rest = rest' := by
  induction l generalizing l' with
  | nil =>
    cases l' with
    | nil => exact ⟨rfl, (List.cons.inj h).2⟩
    | cons c' l' =>
      -- one text ends where the other one goes on with an escape, which is no quotation mark
      obtain ⟨d, t, hEscaped, hMark⟩ := escaped_eq_cons c'
      rw [List.flatMap_cons, hEscaped] at h
      exact absurd (List.cons.inj h).1.symm hMark
  | cons c l ih =>
    cases l' with
    | nil =>
      obtain ⟨d, t, hEscaped, hMark⟩ := escaped_eq_cons c
      rw [List.flatMap_cons, hEscaped] at h
      exact absurd (List.cons.inj h).1 hMark
    | cons c' l' =>
      rw [List.flatMap_cons, List.flatMap_cons, List.append_assoc, List.append_assoc] at h
      have hRead := congrArg unescaped? h
      rw [unescaped?_escaped, unescaped?_escaped, Option.some.injEq, Prod.mk.injEq] at hRead
      obtain ⟨rfl, hMore⟩ := hRead
      obtain ⟨rfl, hRest⟩ := ih hMore
      exact ⟨rfl, hRest⟩

/-- A quoted text ends with its own quotation mark, so the text and the rest are told. -/
theorem quote_append_inj {s s' : String} {rest rest' : List Char}
    (h : quote s ++ rest = quote s' ++ rest') : s = s' ∧ rest = rest' := by
  have hEscaped : s.toList.flatMap escaped ++ '"' :: rest =
      s'.toList.flatMap escaped ++ '"' :: rest' := by
    simpa [quote] using h
  obtain ⟨hChars, hRest⟩ := escaped_append_inj hEscaped
  exact ⟨String.toList_inj.mp hChars, hRest⟩

/-! ## Numbers -/

/-- A text that does not go on with a digit. -/
def EndsNumber (rest : List Char) : Prop := ∀ c ∈ rest.head?, c.isDigit = false

/-- A character that is no digit ends a number. -/
theorem endsNumber_cons {c : Char} (h : c.isDigit = false) (rest : List Char) :
    EndsNumber (c :: rest) := by
  intro d hHead
  obtain rfl : c = d := by simpa using hHead
  exact h

/-- A numeral begins with a digit. -/
theorem exists_digit_toDigits (n : Nat) :
    ∃ c t, Nat.toDigits 10 n = c :: t ∧ c.isDigit = true := by
  obtain ⟨c, t, hDigits⟩ := List.exists_cons_of_ne_nil (Nat.toDigits_ne_nil (n := n) (b := 10))
  have hMem : c ∈ Nat.toDigits 10 n := by simp [hDigits]
  exact ⟨c, t, hDigits, Nat.isDigit_of_mem_toDigits (by decide) (by decide) hMem⟩

/-- A numeral and what follows it are told, if no digit follows. -/
theorem toDigits_append_inj {n n' : Nat} {rest rest' : List Char} (hRest : EndsNumber rest)
    (hRest' : EndsNumber rest') (h : Nat.toDigits 10 n ++ rest = Nat.toDigits 10 n' ++ rest') :
    n = n' ∧ rest = rest' := by
  -- the digits are what stands in front of the first character that is none
  have hDigits : ∀ (n : Nat) {rest : List Char}, EndsNumber rest →
      (Nat.toDigits 10 n ++ rest).takeWhile Char.isDigit = Nat.toDigits 10 n := by
    intro n rest hRest
    have hNone : rest.takeWhile Char.isDigit = [] := by
      cases rest with
      | nil => rfl
      | cons c rest => exact List.takeWhile_cons_of_neg (by simp [hRest c rfl])
    rw [List.takeWhile_append_of_pos fun c hc =>
      Nat.isDigit_of_mem_toDigits (by decide) (by decide) hc, hNone, List.append_nil]
  have hSame : Nat.toDigits 10 n = Nat.toDigits 10 n' := by
    rw [← hDigits n hRest, h, hDigits n' hRest']
  -- the digits tell the number
  have hNumber : n = n' := by
    rw [← Nat.ofDigitChars_toDigits (b := 10) (n := n) (by decide) (by decide), hSame,
      Nat.ofDigitChars_toDigits (by decide) (by decide)]
  exact ⟨hNumber, List.append_cancel_left (hSame ▸ h)⟩

/-- A number that is not negative is written as its digits. -/
theorem toList_toString_ofNat (n : Nat) : (toString (Int.ofNat n)).toList = Nat.toDigits 10 n := by
  show (Nat.repr n).toList = _
  rw [Nat.toList_repr]

/-- A negative number is written as a sign and digits. -/
theorem toList_toString_negSucc (n : Nat) :
    (toString (Int.negSucc n)).toList = '-' :: Nat.toDigits 10 (n + 1) := by
  show ("-" ++ Nat.repr (n + 1)).toList = _
  rw [String.toList_append, Nat.toList_repr]
  rfl

/-- A number begins with a sign or a digit. -/
theorem exists_cons_toString (n : Int) :
    ∃ c t, (toString n).toList = c :: t ∧ (c = '-' ∨ c.isDigit = true) := by
  cases n with
  | ofNat n =>
    obtain ⟨c, t, hDigits, hFirst⟩ := exists_digit_toDigits n
    exact ⟨c, t, by rw [toList_toString_ofNat, hDigits], .inr hFirst⟩
  | negSucc n => exact ⟨'-', _, toList_toString_negSucc n, .inl rfl⟩

/-- A number is told from whatever does not go on with a digit. -/
theorem toString_append_inj {n n' : Int} {rest rest' : List Char} (hRest : EndsNumber rest)
    (hRest' : EndsNumber rest')
    (h : (toString n).toList ++ rest = (toString n').toList ++ rest') : n = n' ∧ rest = rest' := by
  have hSign : ∀ (m : Nat) (s t : List Char), Nat.toDigits 10 m ++ s ≠ '-' :: t := by
    intro m s t hSame
    obtain ⟨c, u, hDigits, hFirst⟩ := exists_digit_toDigits m
    rw [hDigits] at hSame
    obtain rfl : c = '-' := (List.cons.inj hSame).1
    exact absurd hFirst (by decide)
  -- a sign tells the numbers below zero from the others
  cases n with
  | ofNat n =>
    cases n' with
    | ofNat n' =>
      rw [toList_toString_ofNat, toList_toString_ofNat] at h
      obtain ⟨rfl, hMore⟩ := toDigits_append_inj hRest hRest' h
      exact ⟨rfl, hMore⟩
    | negSucc n' =>
      -- a digit is no sign
      rw [toList_toString_ofNat, toList_toString_negSucc] at h
      exact absurd h (hSign _ _ _)
  | negSucc n =>
    cases n' with
    | ofNat n' =>
      rw [toList_toString_ofNat, toList_toString_negSucc] at h
      exact absurd h.symm (hSign _ _ _)
    | negSucc n' =>
      rw [toList_toString_negSucc, toList_toString_negSucc] at h
      obtain ⟨hNumber, hMore⟩ := toDigits_append_inj hRest hRest' (List.cons.inj h).2
      obtain rfl : n = n' := Nat.succ_injective hNumber
      exact ⟨rfl, hMore⟩

/-! ## Lists -/

section
variable {α : Type}

/-- Texts with commas between them. -/
def separated (form : α → List Char) : List α → List Char
  | [] => []
  | [a] => form a
  | a :: b :: more => form a ++ ',' :: ' ' :: separated form (b :: more)

/-- What is separated begins with the first of its parts. -/
theorem exists_separated_cons (form : α → List Char) (a : α) (more : List α) :
    ∃ s, separated form (a :: more) = form a ++ s := by
  cases more with
  | nil => exact ⟨[], (List.append_nil _).symm⟩
  | cons b more => exact ⟨_, rfl⟩

/-- Texts with commas between them are told from the bracket after them, if each is told from what
may follow it and none begins with the bracket. -/
theorem separated_append_inj {form : α → List Char} {close : Char} {l l' : List α}
    {rest rest' : List Char} (hDigit : close.isDigit = false) (hComma : close ≠ ',')
    (hForm : ∀ a ∈ l, ∀ a' {s s'}, EndsNumber s → EndsNumber s' →
      form a ++ s = form a' ++ s' → a = a' ∧ s = s')
    (hBegins : ∀ a, ∃ c t, form a = c :: t ∧ c ≠ close)
    (h : separated form l ++ close :: rest = separated form l' ++ close :: rest') :
    l = l' ∧ rest = rest' := by
  -- no part begins with the closing mark, so a list that goes on is not at its end
  have hNotClose : ∀ a more s t, separated form (a :: more) ++ s ≠ close :: t := by
    intro a more s t hSame
    obtain ⟨c, u, hFirst, hOther⟩ := hBegins a
    obtain ⟨v, hSeparated⟩ := exists_separated_cons form a more
    rw [hSeparated, hFirst] at hSame
    exact hOther (List.cons.inj hSame).1
  -- neither the closing mark nor a comma goes on with a number
  have hAtClose : ∀ s, EndsNumber (close :: s) := endsNumber_cons hDigit
  have hAtComma : ∀ s, EndsNumber (',' :: s) := endsNumber_cons (by decide)
  induction l generalizing l' with
  | nil =>
    cases l' with
    | nil => exact ⟨rfl, (List.cons.inj h).2⟩
    | cons a' l' => exact absurd h.symm (hNotClose _ _ _ _)
  | cons a l ih =>
    obtain ⟨hHere, hMore⟩ := List.forall_mem_cons.mp hForm
    cases l' with
    | nil => exact absurd h (hNotClose _ _ _ _)
    | cons a' l' =>
      -- the character after the first text tells whether it is the last one
      match l, l', h with
      | [], [], h =>
        obtain ⟨rfl, hRest⟩ := hHere a' (hAtClose _) (hAtClose _) h
        exact ⟨rfl, (List.cons.inj hRest).2⟩
      | [], b' :: l', h =>
        rw [separated, separated, List.append_assoc] at h
        exact absurd (List.cons.inj (hHere a' (hAtClose _) (hAtComma _) h).2).1 hComma
      | b :: l, [], h =>
        rw [separated, separated, List.append_assoc] at h
        exact absurd (List.cons.inj (hHere a' (hAtComma _) (hAtClose _) h).2).1.symm hComma
      | b :: l, b' :: l', h =>
        rw [separated, separated, List.append_assoc, List.append_assoc] at h
        obtain ⟨rfl, hRest⟩ := hHere a' (hAtComma _) (hAtComma _) h
        obtain ⟨hSame, hEnd⟩ := ih hMore (List.cons.inj (List.cons.inj hRest).2).2
        exact ⟨congrArg _ hSame, hEnd⟩

end

/-- The items of an array are separated by commas. -/
theorem itemChars_eq (items : List Json) : itemChars items = separated chars items := by
  induction items with
  | nil => rfl
  | cons item more ih =>
    cases more with
    | nil => rfl
    | cons next more =>
      rw [separated, ← ih]
      rfl

/-- The text of a member. -/
def memberText (member : String × Json) : List Char :=
  quote member.1 ++ ':' :: ' ' :: chars member.2

/-- The members of an object are separated by commas. -/
theorem memberChars_eq (members : List (String × Json)) :
    memberChars members = separated memberText members := by
  induction members with
  | nil => rfl
  | cons member more ih =>
    obtain ⟨key, value⟩ := member
    cases more with
    | nil => rfl
    | cons next more =>
      rw [separated, ← ih, memberText, List.append_assoc]
      rfl

/-! ## Values -/

/-- The kinds of value. -/
inductive Shape where
  | string | number | array | object
  deriving DecidableEq

/-- The kind of a value. -/
def shape : Json → Shape
  | .str _ => .string
  | .int _ => .number
  | .arr _ => .array
  | .obj _ => .object

/-- The kind of value that begins with a character. -/
def shapeAt? (c : Char) : Option Shape :=
  if c = '"' then some .string
  else if c = '[' then some .array
  else if c = '\x7b' then some .object
  else if c = '-' ∨ c.isDigit then some .number
  else none

/-- The kind of a value is told from the first character of its text. -/
theorem exists_cons_chars (j : Json) : ∃ c t, chars j = c :: t ∧ shapeAt? c = some j.shape := by
  cases j with
  | str s => exact ⟨'"', _, by rw [chars]; rfl, rfl⟩
  | arr items => exact ⟨'[', _, by rw [chars], rfl⟩
  | obj members => exact ⟨'\x7b', _, by rw [chars], rfl⟩
  | int n =>
    obtain ⟨c, t, hText, hFirst⟩ := exists_cons_toString n
    refine ⟨c, t, by rw [chars, hText], ?_⟩
    -- a number begins with a sign or a digit, and no other value begins with either
    rcases hFirst with rfl | hDigit
    · rfl
    · have hOther : ∀ d : Char, d.isDigit = false → c ≠ d := by
        rintro d hOther rfl
        exact absurd (hDigit.symm.trans hOther) (by decide)
      have hNumber : c = '-' ∨ c.isDigit = true := .inr hDigit
      rw [shapeAt?, if_neg (hOther _ rfl), if_neg (hOther _ rfl), if_neg (hOther _ rfl),
        if_pos hNumber]
      rfl

/-- Two texts that go on alike are of values of one shape. -/
theorem shape_eq_of_append {j j' : Json} {rest rest' : List Char}
    (h : chars j ++ rest = chars j' ++ rest') : j.shape = j'.shape := by
  obtain ⟨c, t, hText, hFirst⟩ := exists_cons_chars j
  obtain ⟨c', t', hText', hFirst'⟩ := exists_cons_chars j'
  rw [hText, hText'] at h
  obtain rfl : c = c' := (List.cons.inj h).1
  exact Option.some.inj (hFirst.symm.trans hFirst')

/-- No value begins with the closing bracket. -/
theorem exists_cons_item (item : Json) : ∃ c t, chars item = c :: t ∧ c ≠ ']' := by
  obtain ⟨c, t, hText, hFirst⟩ := exists_cons_chars item
  refine ⟨c, t, hText, ?_⟩
  rintro rfl
  exact absurd hFirst (by simp [shapeAt?])

/-- No member begins with the closing brace. -/
theorem exists_cons_memberText (member : String × Json) :
    ∃ c t, memberText member = c :: t ∧ c ≠ '\x7d' :=
  ⟨'"', _, rfl, by decide⟩

/-- A property that passes from the items and members of every value to the value holds of all
values. -/
theorem inductionOn {P : Json → Prop} (j : Json) (str : ∀ s, P (.str s)) (int : ∀ n, P (.int n))
    (arr : ∀ items, (∀ item ∈ items, P item) → P (.arr items))
    (obj : ∀ members, (∀ member ∈ members, P member.2) → P (.obj members)) : P j :=
  match j with
  | .str s => str s
  | .int n => int n
  | .arr items => arr items fun item _ => inductionOn item str int arr obj
  | .obj members => obj members fun member _ => inductionOn member.2 str int arr obj
termination_by sizeOf j
decreasing_by
  · have hItem := List.sizeOf_lt_of_mem ‹_›
    simp only [Json.arr.sizeOf_spec]
    omega
  · have hMember := List.sizeOf_lt_of_mem ‹_›
    have hValue : sizeOf member.2 < sizeOf member := by
      cases member
      simp only [Prod.mk.sizeOf_spec]
      omega
    simp only [Json.obj.sizeOf_spec]
    omega

/-- A value is told from whatever does not go on with a digit. -/
theorem chars_append_inj (j j' : Json) {rest rest' : List Char} (hRest : EndsNumber rest)
    (hRest' : EndsNumber rest') (h : chars j ++ rest = chars j' ++ rest') :
    j = j' ∧ rest = rest' := by
  -- by induction on the value; the other one is of its kind, since both begin alike
  induction j using inductionOn generalizing j' rest rest' with
  | str s =>
    match j', shape_eq_of_append h, h with
    | .str s', _, h =>
      rw [chars, chars] at h
      obtain ⟨rfl, hMore⟩ := quote_append_inj h
      exact ⟨rfl, hMore⟩
  | int n =>
    match j', shape_eq_of_append h, h with
    | .int n', _, h =>
      rw [chars, chars] at h
      obtain ⟨rfl, hMore⟩ := toString_append_inj hRest hRest' h
      exact ⟨rfl, hMore⟩
  | arr items ih =>
    match j', shape_eq_of_append h, h with
    | .arr items', _, h =>
      simp only [chars, itemChars_eq, List.cons_append, List.append_assoc, List.nil_append,
        List.cons.injEq, true_and] at h
      obtain ⟨rfl, hMore⟩ := separated_append_inj (by decide) (by decide)
        (fun item hItem item' _ _ hEnd hEnd' hSame => ih item hItem item' hEnd hEnd' hSame)
        exists_cons_item h
      exact ⟨rfl, hMore⟩
  | obj members ih =>
    match j', shape_eq_of_append h, h with
    | .obj members', _, h =>
      simp only [chars, memberChars_eq, List.cons_append, List.append_assoc, List.nil_append,
        List.cons.injEq, true_and] at h
      -- a key ends with its own quotation mark, and the value is told after the colon
      have hMembers : ∀ member ∈ members, ∀ member' {s s'}, EndsNumber s → EndsNumber s' →
          memberText member ++ s = memberText member' ++ s' → member = member' ∧ s = s' := by
        intro member hMember member' s s' hEnd hEnd' hSame
        rw [memberText, memberText, List.append_assoc, List.append_assoc] at hSame
        obtain ⟨hKey, hColon⟩ := quote_append_inj hSame
        obtain ⟨hValue, hMore⟩ := ih member hMember member'.2 hEnd hEnd'
          (List.cons.inj (List.cons.inj hColon).2).2
        exact ⟨Prod.ext hKey hValue, hMore⟩
      obtain ⟨rfl, hMore⟩ := separated_append_inj (by decide) (by decide) hMembers
        exists_cons_memberText h
      exact ⟨rfl, hMore⟩

/-- Values with the same text are the same. -/
theorem text_injective : Function.Injective text := by
  intro j j' h
  have hChars : j.chars ++ [] = j'.chars ++ [] := by
    rw [List.append_nil, List.append_nil, ← String.ofList_inj]
    exact h
  exact (chars_append_inj j j' (by simp [EndsNumber]) (by simp [EndsNumber]) hChars).1

end MessagePattern.Json
