import Mathlib
import BlockSteps.Json.Reader
import BlockSteps.Traced
import BlockSteps.Proofs.Json.Layouts

/-!
# Reading what was written

The text of a value, in either layout, is scanned to a draft that says what the value is: the same
strings and names, the same items and members in the same order, and for each number a numeral that
has the same value.  `Says` is this relation.  It holds whenever the numbers of the value can be
read again at all (`Readable`), which leaves out whole numbers beyond 64 bits and the doubles that
JSON has no word for.

Whether a double that has a word is read back depends on the `Rounding`, so that it is (`ReadsBack`)
is part of `Readable`.  The nearest double to its text is every finite double itself
(`readsBack_nearest`).

**How the scanner is followed.**  The layouts differ in blanks only, and between the signs of a text
blanks are skipped (`scanValue_append`).  Numbers are the only values that do not tell by themselves
where they end, so what follows a value must not go on with it (`EndsNumber`).  And each call of the
scanner needs a bound above zero; two for each character are enough.

**Main statements.**  `exists_says_ofText`, and `readFrom_write`: what a reader makes of every draft
that says what a value is, it makes of the text of the value.
-/

namespace BlockSteps.Json

open Decimal (Spelling)

/-! ## What may stand behind a value -/

variable (layout : Layout)

/-- The signs that may stand behind a value in an array or object. -/
def ClosesValue (c : Char) : Prop := c = ',' ∨ c = ']' ∨ c = '\x7d'

theorem endsNumber_break (depth : ℕ) {c : Char} (cs : List Char) (hc : ClosesValue c) :
    EndsNumber (layout.breakChars depth ++ c :: cs) := by
  intro d hd
  cases layout with
  | compact =>
    obtain rfl : c = d := Option.some.inj hd
    rcases hc with rfl | rfl | rfl <;> decide
  | indented =>
    obtain rfl : '\n' = d := Option.some.inj hd
    decide

theorem endsNumber_items (depth depth' : ℕ) (items : List Json) (cs : List Char) :
    EndsNumber (itemChars layout depth items ++ (layout.breakChars depth' ++ ']' :: cs)) := by
  cases items with
  | nil => exact endsNumber_break layout depth' cs (.inr (.inl rfl))
  | cons item items =>
    intro d hd
    obtain rfl : ',' = d := Option.some.inj hd
    decide

theorem endsNumber_members (depth depth' : ℕ) (members : List (String × Json))
    (cs : List Char) :
    EndsNumber
      (memberChars layout depth members ++ (layout.breakChars depth' ++ '\x7d' :: cs)) := by
  rcases members with _ | ⟨⟨name, value⟩, members⟩
  · exact endsNumber_break layout depth' cs (.inr (.inr rfl))
  · intro d hd
    obtain rfl : ',' = d := Option.some.inj hd
    decide

/-- The characters of a written name, behind its quotation mark. -/
theorem scanText_name (name : String) (rest : List Char) :
    scanText ((name.toList.flatMap escapedChar ++ ['"']) ++ rest) = .ok (some name, rest) := by
  rw [List.append_assoc]
  exact scanText_textChars name rest

section Values

variable [Rounding]

/-! ## Leaves -/

/-- Blanks before a value are skipped. -/
theorem scanValue_append {blanks cs : List Char} (h : ∀ c ∈ blanks, IsBlank c) (bound : ℕ) :
    scanValue (bound + 1) (blanks ++ cs) = scanValue (bound + 1) cs := by
  rw [scanValue, scanValue, skipBlanks_append h]

theorem scanValue_spelling {s : Spelling} (hs : s.Proper) {rest : List Char}
    (hrest : EndsNumber rest) (bound : ℕ) :
    scanValue (bound + 1) (s.chars ++ rest) = (.number s, some rest) := by
  have hmagnitude := scanMagnitude_spelling hs hrest
  unfold Spelling.chars
  cases hnegative : s.negative with
  | true =>
    rw [hnegative] at hmagnitude
    rw [if_pos rfl, List.cons_append, List.append_assoc, scanValue,
      skipBlanks_cons (by rintro (h | h | h | h) <;> exact absurd h (by decide))]
    exact hmagnitude
  | false =>
    rw [hnegative] at hmagnitude
    rw [if_neg Bool.false_ne_true, List.append_assoc]
    obtain ⟨c, digits, hwhole⟩ : ∃ c digits, s.whole = c :: digits := by
      rcases hs.leading with h | ⟨c, digits, h, -⟩
      · exact ⟨_, _, h⟩
      · exact ⟨_, _, h⟩
    have hc : c.isDigit = true := hs.whole c (by rw [hwhole]; exact List.mem_cons_self)
    have hne : ∀ d : Char, d.isDigit = false → c ≠ d := fun d hd h => by
      rw [← h, hc] at hd
      cases hd
    rw [hwhole, List.cons_append] at hmagnitude ⊢
    rw [scanValue, skipBlanks_cons (opensValue_digit hc).1]
    dsimp only
    rw [if_neg (hne _ (by decide)), if_neg (hne _ (by decide)), if_neg (hne _ (by decide)),
      if_neg (hne _ (by decide)), if_neg (hne _ (by decide)), if_neg (hne _ (by decide)),
      if_neg (hne _ (by decide)), if_pos hc]
    exact hmagnitude

theorem scanValue_textChars (s : String) (rest : List Char) (bound : ℕ) :
    scanValue (bound + 1) (textChars s ++ rest) = (.text (some s), some rest) := by
  unfold textChars
  rw [List.cons_append, List.append_assoc, scanValue,
    skipBlanks_cons (by rintro (h | h | h | h) <;> exact absurd h (by decide))]
  dsimp only
  rw [if_neg (by decide), if_neg (by decide), if_pos rfl, List.singleton_append,
    scanText_textChars]

/-! ## Numbers that are read back -/

/-- The text of a number is read as this number. -/
def ReadsBack (x : Float) : Prop := readFrom readNumber (Decimal.Format.document.write x) = .ok x

instance : DecidablePred ReadsBack := fun x =>
  match h : readFrom readNumber (Decimal.Format.document.write x) with
  | .ok y => decidable_of_iff (y = x) (by rw [ReadsBack, h]; exact Except.ok.injEq y x ▸ Iff.rfl)
  | .error _ => isFalse fun hx => by rw [ReadsBack, h] at hx; cases hx

theorem Numeral.value?_of_not_isWhole {n : Numeral} (h : n.isWhole = false) :
    n.value? =
      if (Rounding.toFloat n).isFinite then some (.real (Rounding.toFloat n)) else none := by
  unfold Numeral.value?
  dsimp only
  rw [h]
  rfl

theorem ofText_spelling {s : Spelling} (hs : s.Proper) :
    Draft.ofText (String.ofList s.chars) = (.number s, true) := by
  have hends : EndsNumber [] := nofun
  have hscan := scanValue_spelling hs hends (2 * s.chars.length + 1)
  rw [List.append_nil] at hscan
  unfold Draft.ofText
  rw [String.toList_ofList]
  dsimp only
  rw [hscan]
  rfl

/-- Whether a number is read back is a matter of the value of its spelling. -/
theorem readsBack_iff {x : Float} {s : Spelling} (hs : s.Proper) (hreal : s.isWhole = false)
    (hchars : Decimal.Format.document.chars x = s.chars) :
    ReadsBack x ↔ Numeral.value? s = some (.real x) := by
  unfold ReadsBack readFrom Decimal.Format.write
  rw [hchars, ofText_spelling hs]
  dsimp only
  rw [readNumber, Numeral.value?_of_not_isWhole hreal]
  by_cases hfinite : (Rounding.toFloat s).isFinite = true
  · rw [if_pos hfinite]
    exact ⟨fun h => congrArg (some ∘ Json.real) (Except.ok.inj h), fun h => by cases h; rfl⟩
  · rw [if_neg hfinite]
    exact ⟨nofun, nofun⟩

/-- A finite number that is read back is a proper spelling of itself. -/
theorem exists_spelling_real {x : Float} (hx : x.isFinite = true) (h : ReadsBack x) :
    ∃ s : Spelling, s.Proper ∧ Decimal.Format.document.chars x = s.chars ∧
      Numeral.value? s = some (.real x) := by
  obtain ⟨s, hproper, hreal, hchars, -⟩ := Decimal.exists_spelling_document hx
  exact ⟨s, hproper, hchars, (readsBack_iff hproper hreal hchars).mp h⟩

omit [Rounding] in
/-- **The double nearest to the text of a finite number is this number.** -/
theorem readsBack_nearest {x : Float} (hx : x.isFinite = true) : @ReadsBack .nearest x := by
  obtain ⟨s, hproper, hreal, hchars, hfloat⟩ := Decimal.exists_spelling_document hx
  let _ : Rounding := .nearest
  refine (readsBack_iff hproper hreal hchars).mpr ?_
  have hnearest : Rounding.toFloat s = x := hfloat
  rw [Numeral.value?_of_not_isWhole hreal, hnearest, if_pos hx]

/-- Step by step, some are not read back: the quotient `4 / 10 ^ 24` is another double than
`4e-24`. -/
example : ¬ @ReadsBack .stepwise 4e-24 := by decide +kernel

/-! ## Values that can be read again -/

mutual

/-- The draft says what the value is. -/
inductive Says : Json → Draft → Prop where
  /-- The value `null`. -/
  | null : Says .null .null
  /-- A truth value. -/
  | boolean (b : Bool) : Says (.boolean b) (.boolean b)
  /-- A whole number, spelled by a numeral of this value. -/
  | integer {n : ℤ} {numeral : Numeral} (h : numeral.value? = some (.integer n)) :
      Says (.integer n) (.number numeral)
  /-- A real number, spelled by a numeral of this value. -/
  | real {x : Float} {numeral : Numeral} (h : numeral.value? = some (.real x)) :
      Says (.real x) (.number numeral)
  /-- A string. -/
  | text (s : String) : Says (.text s) (.text (some s))
  /-- An array that comes to its end. -/
  | array {items : List Json} {drafts : List Draft} (h : SaysItems items drafts) :
      Says (.array items) (.array drafts none)
  /-- An object that comes to its end. -/
  | object {members : List (String × Json)} {drafts : List (Option String × Draft)}
      (h : SaysMembers members drafts) : Says (.object members) (.object drafts none)

/-- The drafts say what the items are. -/
inductive SaysItems : List Json → List Draft → Prop where
  /-- There are none. -/
  | nil : SaysItems [] []
  /-- One more. -/
  | cons {item : Json} {draft : Draft} {items : List Json} {drafts : List Draft}
      (h : Says item draft) (hrest : SaysItems items drafts) :
      SaysItems (item :: items) (draft :: drafts)

/-- The drafts say what the members are, under the same names. -/
inductive SaysMembers : List (String × Json) → List (Option String × Draft) → Prop where
  /-- There are none. -/
  | nil : SaysMembers [] []
  /-- One more. -/
  | cons {name : String} {value : Json} {draft : Draft} {members : List (String × Json)}
      {drafts : List (Option String × Draft)} (h : Says value draft)
      (hrest : SaysMembers members drafts) :
      SaysMembers ((name, value) :: members) ((some name, draft) :: drafts)

end

mutual

/-- A value whose numbers can be read again: a whole number fits into 64 bits, and a real one is
finite and read back. -/
def Readable : Json → Prop
  | .null => True
  | .boolean _ => True
  | .integer n => -2 ^ 63 ≤ n ∧ n < 2 ^ 64
  | .real x => x.isFinite = true ∧ ReadsBack x
  | .text _ => True
  | .array items => ReadableItems items
  | .object members => ReadableMembers members

/-- Items whose numbers can be read again. -/
def ReadableItems : List Json → Prop
  | [] => True
  | item :: rest => item.Readable ∧ ReadableItems rest

/-- Members whose numbers can be read again. -/
def ReadableMembers : List (String × Json) → Prop
  | [] => True
  | (_, value) :: rest => value.Readable ∧ ReadableMembers rest

end

/-- One member of an object, from its name. -/
theorem scanMembers_member {name : Option String} {quoted : List Char} {value : Draft}
    {blanks cs after : List Char} {bound : ℕ}
    (hname : ∀ rest, scanText (quoted ++ rest) = .ok (name, rest))
    (hblanks : ∀ c ∈ blanks, IsBlank c) (first : Bool)
    (hvalue : scanValue bound cs = (value, some after)) :
    scanMembers (bound + 1) first
        ((if first then blanks else ',' :: blanks) ++ ('"' :: (quoted ++ ':' :: cs))) =
      (((name, value) :: (scanMembers bound false after).1,
        (scanMembers bound false after).2)) := by
  have hquote : ¬ IsBlank '"' := by rintro (h | h | h | h) <;> exact absurd h (by decide)
  have hcomma : ¬ IsBlank ',' := by rintro (h | h | h | h) <;> exact absurd h (by decide)
  have hcolon : ¬ IsBlank ':' := by rintro (h | h | h | h) <;> exact absurd h (by decide)
  rw [scanMembers]
  cases first with
  | true =>
    rw [if_pos rfl, skipBlanks_append hblanks, skipBlanks_cons hquote]
    dsimp only
    rw [if_neg (by decide), if_pos (Bool.true_or _), if_pos rfl]
    dsimp only
    rw [if_pos rfl, hname]
    dsimp only
    rw [skipBlanks_cons hcolon]
    dsimp only
    rw [if_pos rfl, hvalue]
  | false =>
    rw [if_neg Bool.false_ne_true, List.cons_append, skipBlanks_cons hcomma]
    dsimp only
    rw [if_neg (by decide), if_pos (by decide), if_neg Bool.false_ne_true,
      skipBlanks_append hblanks, skipBlanks_cons hquote]
    dsimp only
    rw [if_pos rfl, hname]
    dsimp only
    rw [skipBlanks_cons hcolon]
    dsimp only
    rw [if_pos rfl, hvalue]

/-- The first item of an array. -/
theorem scanItems_first {c : Char} {blanks cs after : List Char} {item : Draft} {bound : ℕ}
    (hblanks : ∀ c ∈ blanks, IsBlank c) (hc : OpensValue c)
    (hitem : scanValue bound (c :: cs) = (item, some after)) :
    scanItems (bound + 1) true (blanks ++ c :: cs) =
      (item :: (scanItems bound false after).1, (scanItems bound false after).2) := by
  rw [scanItems, skipBlanks_append hblanks, skipBlanks_cons hc.1]
  dsimp only
  rw [if_neg hc.2.1, if_pos (Bool.true_or _), if_pos rfl, hitem]

/-- An item behind a comma. -/
theorem scanItems_next {cs after : List Char} {item : Draft} {bound : ℕ}
    (hitem : scanValue bound cs = (item, some after)) :
    scanItems (bound + 1) false (',' :: cs) =
      (item :: (scanItems bound false after).1, (scanItems bound false after).2) := by
  rw [scanItems, skipBlanks_cons (by rintro (h | h | h | h) <;> exact absurd h (by decide))]
  dsimp only
  rw [if_neg (by decide), if_pos (by decide), if_neg Bool.false_ne_true, hitem]

/-- The end of an array. -/
theorem scanItems_end {blanks : List Char} (rest : List Char) (hblanks : ∀ c ∈ blanks, IsBlank c)
    (bound : ℕ) (first : Bool) :
    scanItems (bound + 1) first (blanks ++ ']' :: rest) = ([], none, some rest) := by
  rw [scanItems, skipBlanks_append hblanks,
    skipBlanks_cons (by rintro (h | h | h | h) <;> exact absurd h (by decide))]
  exact if_pos rfl

/-- The end of an object. -/
theorem scanMembers_end {blanks : List Char} (rest : List Char) (hblanks : ∀ c ∈ blanks, IsBlank c)
    (bound : ℕ) (first : Bool) :
    scanMembers (bound + 1) first (blanks ++ '\x7d' :: rest) = ([], none, some rest) := by
  rw [scanMembers, skipBlanks_append hblanks,
    skipBlanks_cons (by rintro (h | h | h | h) <;> exact absurd h (by decide))]
  exact if_pos rfl

theorem scanValue_bracket (bound : ℕ) (cs : List Char) :
    scanValue (bound + 1) ('[' :: cs) =
      (.array (scanItems bound true cs).1 (scanItems bound true cs).2.1,
        (scanItems bound true cs).2.2) := by
  rw [scanValue, skipBlanks_cons (by rintro (h | h | h | h) <;> exact absurd h (by decide))]
  dsimp only
  rw [if_neg (by decide), if_pos rfl]

theorem scanValue_brace (bound : ℕ) (cs : List Char) :
    scanValue (bound + 1) ('\x7b' :: cs) =
      (.object (scanMembers bound true cs).1 (scanMembers bound true cs).2.1,
        (scanMembers bound true cs).2.2) := by
  rw [scanValue, skipBlanks_cons (by rintro (h | h | h | h) <;> exact absurd h (by decide))]
  dsimp only
  rw [if_pos rfl]

/-! ## Scanning a written value -/

mutual

/-- **A written value is scanned to a draft that says what it is.** -/
theorem exists_says_scanValue (depth bound : ℕ) {rest : List Char} (hrest : EndsNumber rest) :
    ∀ {j : Json}, j.Readable → 2 * (chars layout depth j).length ≤ bound + 1 →
      ∃ d, Says j d ∧ scanValue (bound + 1) (chars layout depth j ++ rest) = (d, some rest)
  | .null, _, _ => ⟨.null, .null, by rw [scanValue]; rfl⟩
  | .boolean true, _, _ => ⟨.boolean true, .boolean true, by rw [scanValue]; rfl⟩
  | .boolean false, _, _ => ⟨.boolean false, .boolean false, by rw [scanValue]; rfl⟩
  | .integer n, hj, _ => by
    obtain ⟨s, hs, hchars, hvalue⟩ := exists_spelling_intChars hj.1 hj.2
    refine ⟨_, .integer hvalue, ?_⟩
    rw [chars, hchars]
    exact scanValue_spelling hs hrest bound
  | .real x, hj, _ => by
    obtain ⟨s, hs, hchars, hvalue⟩ := exists_spelling_real hj.1 hj.2
    refine ⟨_, .real hvalue, ?_⟩
    rw [chars, hchars]
    exact scanValue_spelling hs hrest bound
  | .text s, _, _ => ⟨_, .text s, scanValue_textChars s rest bound⟩
  | .array [], _, hbound => by
    obtain ⟨bound, rfl⟩ : ∃ b, bound = b + 1 := ⟨bound - 1, by simp [chars] at hbound; omega⟩
    have hnone : ∀ c ∈ ([] : List Char), IsBlank c := nofun
    have hend := scanItems_end rest hnone bound true
    rw [List.nil_append] at hend
    refine ⟨_, .array .nil, ?_⟩
    rw [chars, List.cons_append, scanValue_bracket, List.cons_append, List.nil_append, hend]
  | .array (item :: items), hj, hbound => by
    obtain ⟨c, cs, hcs, hopens⟩ := exists_chars_eq_cons layout (depth + 1) item
    have hlength := length_chars_pos layout (depth + 1) item
    rw [chars] at hbound
    simp only [List.length_cons, List.length_append, List.length_nil] at hbound
    obtain ⟨bound, rfl⟩ : ∃ b, bound = b + 2 := ⟨bound - 2, by omega⟩
    obtain ⟨ds, hsays, hds⟩ :=
      exists_says_scanItems (depth + 1) depth bound rest hj.2 (by omega)
    have hends := endsNumber_items layout (depth + 1) depth items rest
    obtain ⟨d, hd, hscan⟩ := exists_says_scanValue (depth + 1) bound hends hj.1 (by omega)
    refine ⟨_, .array (.cons hd hsays), ?_⟩
    rw [hcs, List.cons_append] at hscan
    have hfirst := scanItems_first (isBlank_breakChars layout (depth + 1)) hopens hscan
    rw [hds] at hfirst
    rw [chars, List.cons_append, scanValue_bracket, hcs]
    simp only [List.append_assoc, List.cons_append, List.nil_append, hfirst]
  | .object [], _, hbound => by
    obtain ⟨bound, rfl⟩ : ∃ b, bound = b + 1 := ⟨bound - 1, by simp [chars] at hbound; omega⟩
    have hnone : ∀ c ∈ ([] : List Char), IsBlank c := nofun
    have hend := scanMembers_end rest hnone bound true
    rw [List.nil_append] at hend
    refine ⟨_, .object .nil, ?_⟩
    rw [chars, List.cons_append, scanValue_brace, List.cons_append, List.nil_append, hend]
  | .object ((name, value) :: members), hj, hbound => by
    have hlength := length_chars_pos layout (depth + 1) value
    rw [chars] at hbound
    simp only [List.length_cons, List.length_append, List.length_nil] at hbound
    obtain ⟨bound, rfl⟩ : ∃ b, bound = b + 2 := ⟨bound - 2, by omega⟩
    obtain ⟨ds, hsays, hds⟩ :=
      exists_says_scanMembers (depth + 1) depth bound rest hj.2 (by omega)
    have hends := endsNumber_members layout (depth + 1) depth members rest
    obtain ⟨d, hd, hscan⟩ := exists_says_scanValue (depth + 1) bound hends hj.1 (by omega)
    refine ⟨_, .object (.cons hd hsays), ?_⟩
    have hfirst := scanMembers_member (scanText_name name) (isBlank_breakChars layout (depth + 1))
      true ((scanValue_append (isBlank_colonBlank layout) bound).trans hscan)
    rw [hds, if_pos rfl] at hfirst
    rw [chars, List.cons_append, scanValue_brace]
    simp only [textChars, List.append_assoc, List.cons_append, List.nil_append] at hfirst ⊢
    rw [hfirst]

/-- The items behind the first one, and the end of the array. -/
theorem exists_says_scanItems (depth depth' bound : ℕ) (rest : List Char) :
    ∀ {items : List Json}, ReadableItems items →
      2 * ((itemChars layout depth items).length + 1) ≤ bound + 1 →
      ∃ ds, SaysItems items ds ∧
        scanItems (bound + 1) false
            (itemChars layout depth items ++ (layout.breakChars depth' ++ ']' :: rest)) =
          (ds, none, some rest)
  | [], _, _ => ⟨[], .nil, scanItems_end rest (isBlank_breakChars layout depth') bound false⟩
  | item :: items, hitems, hbound => by
    have hlength := length_chars_pos layout depth item
    rw [itemChars] at hbound
    simp only [List.length_cons, List.length_append] at hbound
    obtain ⟨bound, rfl⟩ : ∃ b, bound = b + 1 := ⟨bound - 1, by omega⟩
    obtain ⟨ds, hsays, hds⟩ :=
      exists_says_scanItems depth depth' bound rest hitems.2 (by omega)
    have hends := endsNumber_items layout depth depth' items rest
    obtain ⟨d, hd, hscan⟩ := exists_says_scanValue depth bound hends hitems.1 (by omega)
    refine ⟨d :: ds, .cons hd hsays, ?_⟩
    rw [itemChars, List.cons_append, List.append_assoc, List.append_assoc]
    rw [scanItems_next ((scanValue_append (isBlank_breakChars layout depth) bound).trans hscan),
      hds]

/-- The members behind the first one, and the end of the object. -/
theorem exists_says_scanMembers (depth depth' bound : ℕ) (rest : List Char) :
    ∀ {members : List (String × Json)}, ReadableMembers members →
      2 * ((memberChars layout depth members).length + 1) ≤ bound + 1 →
      ∃ ds, SaysMembers members ds ∧
        scanMembers (bound + 1) false
            (memberChars layout depth members ++ (layout.breakChars depth' ++ '\x7d' :: rest)) =
          (ds, none, some rest)
  | [], _, _ => ⟨[], .nil, scanMembers_end rest (isBlank_breakChars layout depth') bound false⟩
  | (name, value) :: members, hmembers, hbound => by
    have hlength := length_chars_pos layout depth value
    rw [memberChars] at hbound
    simp only [List.length_cons, List.length_append] at hbound
    obtain ⟨bound, rfl⟩ : ∃ b, bound = b + 1 := ⟨bound - 1, by omega⟩
    obtain ⟨ds, hsays, hds⟩ :=
      exists_says_scanMembers depth depth' bound rest hmembers.2 (by omega)
    have hends := endsNumber_members layout depth depth' members rest
    obtain ⟨d, hd, hscan⟩ := exists_says_scanValue depth bound hends hmembers.1 (by omega)
    refine ⟨(some name, d) :: ds, .cons hd hsays, ?_⟩
    have hmember := scanMembers_member (scanText_name name) (isBlank_breakChars layout depth) false
      ((scanValue_append (isBlank_colonBlank layout) bound).trans hscan)
    rw [hds, if_neg Bool.false_ne_true] at hmember
    rw [memberChars, textChars]
    simpa only [List.cons_append, List.append_assoc] using hmember

end

/-- **The text of a value is scanned to its end, and the draft says what the value is.** -/
theorem exists_says_ofText {j : Json} (hj : j.Readable) (layout : Layout) :
    ∃ d, Says j d ∧ Draft.ofText (j.write layout) = (d, true) := by
  have hends : EndsNumber [] := nofun
  obtain ⟨d, hd, hscan⟩ :=
    exists_says_scanValue layout 0 (2 * (chars layout 0 j).length + 1) hends hj (by omega)
  refine ⟨d, hd, ?_⟩
  rw [List.append_nil] at hscan
  unfold Draft.ofText
  rw [toList_write]
  dsimp only
  rw [hscan]
  rfl

/-- What a reader makes of every draft that says what the value is, it makes of the text of the
value. -/
theorem readFrom_write {α : Type} {read : Reader α} {j : Json} {x : α} (hj : j.Readable)
    (h : ∀ d, Says j d → read d = .ok x) (layout : Layout) :
    readFrom read (j.write layout) = .ok x := by
  obtain ⟨d, hd, htext⟩ := exists_says_ofText hj layout
  unfold readFrom
  rw [htext]
  dsimp only
  rw [h d hd]
  rfl

/-! ## Reading one value -/

theorem readText_eq_ok {s : String} : ∀ d, (text s).Says d → readText d = .ok s := by
  intro d hd
  cases hd
  rfl

theorem readCount_eq_ok {n : ℕ} : ∀ d, (integer n).Says d → readCount d = .ok n := by
  intro d hd
  cases hd with
  | integer hvalue =>
    rw [readCount, hvalue]
    dsimp only
    rw [if_neg (by omega), Int.toNat_natCast]

theorem readWord_eq_ok {α : Type} {words : List (String × α)} {word : String} {x : α}
    (h : Dict.find? word words = some x) : ∀ d, (text word).Says d → readWord words d = .ok x := by
  intro d hd
  cases hd
  rw [readWord, wordValue, h]

/-! ## Reading lists and dictionaries -/

section Several

variable {α β : Type} {encode : α → Json} {read : Reader β} (back : α → β)

theorem readableItems_map {xs : List α} (h : ∀ x ∈ xs, (encode x).Readable) :
    ReadableItems (xs.map encode) := by
  induction xs with
  | nil => trivial
  | cons x xs ih =>
    rw [List.forall_mem_cons] at h
    exact ⟨h.1, ih h.2⟩

theorem readableMembers_map {entries : List (String × α)}
    (h : ∀ p ∈ entries, (encode p.2).Readable) :
    ReadableMembers (entries.map fun p => (p.1, encode p.2)) := by
  induction entries with
  | nil => trivial
  | cons p entries ih =>
    rw [List.forall_mem_cons] at h
    exact ⟨h.1, ih h.2⟩

theorem readItems_eq_ok {xs : List α}
    (h : ∀ x ∈ xs, ∀ d, Says (encode x) d → read d = .ok (back x)) :
    ∀ {drafts : List Draft}, SaysItems (xs.map encode) drafts →
      readItems read drafts = .ok (xs.map back) := by
  induction xs with
  | nil =>
    intro drafts hdrafts
    cases hdrafts
    rfl
  | cons x xs ih =>
    intro drafts hdrafts
    rw [List.forall_mem_cons] at h
    cases hdrafts with
    | cons hitem hrest =>
      rw [readItems, h.1 _ hitem, ok_bind, ih h.2 hrest]
      rfl

/-- A list is read back if its items are. -/
theorem readList_eq_ok {xs : List α}
    (h : ∀ x ∈ xs, ∀ d, Says (encode x) d → read d = .ok (back x)) {d : Draft}
    (hd : Says (.array (xs.map encode)) d) : readList read d = .ok (xs.map back) := by
  cases hd with
  | array hitems =>
    rw [readList, readItems_eq_ok back h hitems]
    rfl

theorem readEntries_eq_ok {entries : List (String × α)}
    (h : ∀ p ∈ entries, ∀ d, Says (encode p.2) d → read d = .ok (back p.2)) :
    ∀ {drafts : List (Option String × Draft)},
      SaysMembers (entries.map fun p => (p.1, encode p.2)) drafts →
        readEntries read drafts = .ok (entries.map fun p => (p.1, back p.2)) := by
  induction entries with
  | nil =>
    intro drafts hdrafts
    cases hdrafts
    rfl
  | cons p entries ih =>
    intro drafts hdrafts
    rw [List.forall_mem_cons] at h
    cases hdrafts with
    | cons hvalue hrest =>
      rw [readEntries, h.1 _ hvalue, ok_bind, ih h.2 hrest]
      rfl

/-- A dictionary is read back if its values are. -/
theorem readDict_eq_ok {dict : Dict α}
    (h : ∀ x ∈ dict.values, ∀ d, Says (encode x) d → read d = .ok (back x)) {d : Draft}
    (hd : Says (.object (dict.map encode).entries) d) : readDict read d = .ok (dict.map back) := by
  cases hd with
  | object hmembers =>
    have hentries := readEntries_eq_ok back
      (fun p hp => h p.2 (List.mem_map_of_mem hp)) hmembers
    rw [readDict, hentries]
    exact congrArg Except.ok (Dict.ext_entries (Dict.entries_ofList (dict.map back).increasing))

/-- Texts are read back. -/
theorem readList_texts_eq_ok {items : List String} {d : Draft} (hd : Says (.texts items) d) :
    readList readText d = .ok items := by
  have h : readList readText d = .ok (items.map id) :=
    readList_eq_ok id (fun _ _ => readText_eq_ok) hd
  rwa [List.map_id] at h

end Several

end Values

/-! ## Reading a record -/

variable {α : Type}

/-- The members give fields of a record, in order, and take the first record to the second.  What
they leave out, need not be there. -/
inductive TakesSome : List (Field α) → List (Option String × Draft) → α → α → Prop where
  /-- No fields are left. -/
  | nil (r : α) : TakesSome [] [] r r
  /-- A member gives the next field. -/
  | cons {f : Field α} {d : Draft} {change : α → α} {fields : List (Field α)}
      {drafts : List (Option String × Draft)} {r s : α} (h : f.take d = .ok change)
      (hrest : TakesSome fields drafts (change r) s) :
      TakesSome (f :: fields) ((some f.name, d) :: drafts) r s
  /-- The next field is left out. -/
  | leave {f : Field α} {fields : List (Field α)} {drafts : List (Option String × Draft)} {r s : α}
      (h : f.required = false) (hrest : TakesSome fields drafts r s) :
      TakesSome (f :: fields) drafts r s

/-- The members give every field of a record, in order, and take the first record to the second. -/
inductive TakesAll : List (Field α) → List (Option String × Draft) → α → α → Prop where
  /-- No fields are left. -/
  | nil (r : α) : TakesAll [] [] r r
  /-- A member gives the next field. -/
  | cons {f : Field α} {d : Draft} {change : α → α} {fields : List (Field α)}
      {drafts : List (Option String × Draft)} {r s : α} (h : f.take d = .ok change)
      (hrest : TakesAll fields drafts (change r) s) :
      TakesAll (f :: fields) ((some f.name, d) :: drafts) r s

theorem TakesAll.takesSome {fields : List (Field α)} {drafts : List (Option String × Draft)}
    {r s : α} (h : TakesAll fields drafts r s) : TakesSome fields drafts r s := by
  induction h with
  | nil r => exact .nil r
  | cons h hrest ih => exact .cons h ih

theorem Field.take_of {β : Type} {name : String} {required : Bool} {read : Reader β}
    {set : β → α → α} {d : Draft} {v : β} (h : read d = .ok v) :
    (Field.of name required read set).take d = .ok (set v) :=
  congrArg (Except.map set) h

theorem requireFields_of_forall {given : List String} {fields : List (Field α)}
    (h : ∀ f ∈ fields, f.name ∈ given ∨ f.required = false) :
    requireFields given fields = .ok () := by
  induction fields with
  | nil => rfl
  | cons f fields ih =>
    rw [List.forall_mem_cons] at h
    have hmissing : (f.required && !given.contains f.name) = false := by
      rcases h.1 with hgiven | hrequired
      · rw [List.contains_iff_mem.mpr hgiven, Bool.not_true, Bool.and_false]
      · rw [hrequired, Bool.false_and]
    rw [requireFields, hmissing, if_neg Bool.false_ne_true, ih h.2]

/-- A field of a record is found by its name. -/
theorem find?_name {all : List (Field α)} (hnames : (all.map Field.name).Nodup) {f : Field α}
    (hf : f ∈ all) : all.find? (fun g => g.name == f.name) = some f := by
  obtain ⟨g, hg⟩ : ∃ g, all.find? (fun g => g.name == f.name) = some g :=
    Option.isSome_iff_exists.mp (List.find?_isSome.mpr ⟨f, hf, beq_self_eq_true _⟩)
  have hname : g.name = f.name := by
    have := List.find?_some hg
    exact beq_iff_eq.mp this
  rw [hg, List.inj_on_of_nodup_map hnames (List.mem_of_find?_eq_some hg) hf hname]

theorem readMembers_of_takesSome {all fields : List (Field α)} {given : List String}
    {drafts : List (Option String × Draft)} {r s : α} (h : TakesSome fields drafts r s)
    (hnames : (all.map Field.name).Nodup) (hfields : fields.Sublist all)
    (hfresh : ∀ f ∈ fields, f.name ∉ given)
    (hgiven : ∀ f ∈ all, f ∈ fields ∨ f.name ∈ given ∨ f.required = false) :
    readMembers all none drafts given r = .ok s := by
  induction h generalizing given with
  | nil r =>
    rw [readMembers, requireFields_of_forall fun f hf => (hgiven f hf).resolve_left nofun]
    rfl
  | @cons f d change fields drafts r s htake hrest ih =>
    have hnot : given.contains f.name = false := by
      have := hfresh f List.mem_cons_self
      rw [Bool.eq_false_iff, ne_eq, List.contains_iff_mem]
      exact this
    have hrestNodup := (hfields.map Field.name).nodup hnames
    rw [List.map_cons, List.nodup_cons] at hrestNodup
    rw [readMembers, find?_name hnames (hfields.subset List.mem_cons_self)]
    dsimp only
    rw [hnot, if_neg Bool.false_ne_true, htake]
    refine ih ((List.sublist_cons_self f fields).trans hfields) (fun g hg => ?_) fun g hg => ?_
    · rw [List.mem_cons, not_or]
      refine ⟨fun hname => hrestNodup.1 ?_, hfresh g (List.mem_cons_of_mem f hg)⟩
      exact hname ▸ List.mem_map_of_mem hg
    · rcases hgiven g hg with h | h | h
      · rcases List.mem_cons.mp h with rfl | h
        · exact .inr (.inl List.mem_cons_self)
        · exact .inl h
      · exact .inr (.inl (List.mem_cons_of_mem _ h))
      · exact .inr (.inr h)
  | @leave f fields drafts r s hrequired hrest ih =>
    refine ih ((List.sublist_cons_self f fields).trans hfields)
      (fun g hg => hfresh g (List.mem_cons_of_mem f hg)) fun g hg => ?_
    rcases hgiven g hg with h | h
    · rcases List.mem_cons.mp h with rfl | h
      · exact .inr (.inr hrequired)
      · exact .inl h
    · exact .inr h

/-- **An object that gives fields of a record, in order, is read as the record**, if no other field
has to be there. -/
theorem Record.read_of_takesSome [Rounding] {record : Record α}
    (hnames : (record.fields.map Field.name).Nodup) {drafts : List (Option String × Draft)} {r : α}
    (h : TakesSome record.fields drafts record.blank r) :
    record.read (.object drafts none) = .ok r :=
  readMembers_of_takesSome h hnames (List.Sublist.refl _) (fun _ _ => List.not_mem_nil)
    fun _ hf => .inl hf

/-- An object that gives every field of a record, in order, is read as the record. -/
theorem Record.read_of_takesAll [Rounding] {record : Record α}
    (hnames : (record.fields.map Field.name).Nodup) {drafts : List (Option String × Draft)} {r : α}
    (h : TakesAll record.fields drafts record.blank r) :
    record.read (.object drafts none) = .ok r :=
  Record.read_of_takesSome hnames h.takesSome

end BlockSteps.Json
